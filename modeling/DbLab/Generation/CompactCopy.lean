import DbLab.Generation.Compaction
import DbLab.Generation.SwitchRecovery
import DbLab.Log.Compacted

/-!
# The compact copy of a log

A copy is built at a staging path, compared with its source, linked at the output path and compared again.
For every log that an engine has written all these checks pass, and the copy is the compacted log.
-/

namespace DbLab.Generation

open Log Record RecordFormat

/-- `compact_log_to_fresh_file` for paths in any directories: the staging path is the one beside the output, and
the steps only compare paths. -/
def compactLogThrough (staging source output : Name) : DirTask LogCompactionReport := do
  let _ ← readRegular "source append log" source
  requireAbsent "compaction output" output
  rejectWhen (source = output) (.invalid "source and output must be distinct paths")
  rejectWhen (source = staging) (.invalid "derived staging path aliases the source append log")
  requireAbsent "compaction staging path" staging
  let file ← readRegular "source append log" source
  let sourceVerification ← Task.ofExcept (verifyLog file)
  rejectWhen (sourceVerification.recoverableTail.isSome)
    (.invalid "source has a recoverable incomplete final append; reopen/repair it explicitly before compaction")
  let sourceInspection ← inspectAt source
  rejectWhen (sourceInspection.verification ≠ sourceVerification)
    (.invalid "source changed between verification and replay inspection")
  buildStaging staging sourceInspection
  let compacted ← discarding [staging] (← (inspectAt staging).attempt)
  discarding [staging] (validateCompactedState sourceInspection compacted)
  let sourceAfter ← discarding [staging] (← (inspectAt source).attempt)
  discarding [staging] (if sourceAfter ≠ sourceInspection then
    .error (.invalid "source changed while the compact copy was being constructed") else .ok ())
  discarding [staging] (← (hardLink staging output).attempt)
  let published ← discarding [output, staging] (← (inspectAt output).attempt)
  discarding [output, staging] (if published ≠ compacted then
    .error (.invalid "published compact output differs from its verified staging image") else .ok ())
  discarding [output, staging] (if sourceVerification.fileBytes < published.verification.fileBytes then
    .error (.invalid "compacted file is unexpectedly larger than its source append log") else .ok ())
  let stagingRetained ← removeQuietly staging
  pure
    { sourceFileBytes := sourceVerification.fileBytes
      sourceRecordCount := sourceVerification.recordCount
      liveKeys := sourceVerification.liveKeys
      compactedFileBytes := published.verification.fileBytes
      compactedRecordCount := published.verification.recordCount
      reclaimedBytes := sourceVerification.fileBytes - published.verification.fileBytes
      stagingRetained := stagingRetained }

theorem compactLogToFreshFile_eq (source output : Name) :
    compactLogToFreshFile source output = compactLogThrough (compactingName output) source output := rfl

variable {d d' : Directory} {path source output staging : Name} {engine : LogEngine} {ms : List Mutation}
  {entries done : Values} {bytes : Bytes}

/-- No step fails. -/
def Undisturbing (io : Io) : Prop := io = .success

theorem undisturbing_success : Undisturbing .success := rfl

/-- Nothing disturbs the task. -/
abbrev Succeeds {α : Type} (t : DirTask α) (d : Directory) (a : α) (d' : Directory) : Prop :=
  Task.Runs Undisturbing t d (.ok a) d'

theorem appendTo_find (h : d.find path = some (.regular bytes)) (more : Bytes) :
    appendTo d path more = d.insert path (.regular (bytes ++ more)) := by
  rw [appendTo, h]

/-! ### The staging file -/

theorem undisturbed_createLog (h : ¬ d.Has path) :
    ∃ engine d', Succeeds (createLog path) d engine d' ∧ engine.Holds [] ∧
      d'.find path = some (.regular engine.log.file) ∧ ∀ name, name ≠ path → d'.find name = d.find name := by
  obtain ⟨engine, hcreate, hholds⟩ := LogEngine.exists_createNew
  have hfile : engine.log.file = encodeFileHeader := by
    rw [hholds.appended.file_eq, recordsBytes_nil, List.append_nil]
  refine ⟨engine, (d.insert path (.regular [])).insert path (.regular encodeFileHeader), ?_, hholds, ?_, fun name hne => ?_⟩
  · unfold createLog Succeeds
    simp only [runs_bind, runs_createNewFile undisturbing_success, runs_writeAll undisturbing_success,
      runs_sync undisturbing_success, runs_ofExcept]
    refine ⟨(), _, ⟨h, rfl⟩, (), _, ?_, (), _, rfl, ?_, rfl⟩
    · rw [@appendTo_find (d.insert path (.regular [])) path [] (by simp), List.nil_append]
    · rw [hcreate]
      rfl
  · simp [hfile]
  · simp [hne]

/-- One put at the file of the engine. -/
theorem undisturbed_putRecord {key value : Bytes} {previous : Option Bytes} {next : LogEngine} {m : Mutation}
    (hholds : engine.Holds ms) (hfind : d.find path = some (.regular engine.log.file))
    (hput : LogEngine.put key value engine = (.ok previous, next)) (hnext : next.Holds (ms ++ [m])) :
    Succeeds (putRecord path engine key value) d next (d.insert path (.regular next.log.file)) := by
  have hengine : engineAt d path engine = engine := by
    rw [engineAt, hfind]
  have hgrows : engine.log.file ++ next.log.file.drop engine.log.file.length = next.log.file := by
    rw [hnext.appended.file_eq, hholds.appended.file_eq, recordsBytes_append, ← List.append_assoc, List.drop_left]
  refine Task.runs_act.2 ⟨.success, rfl, ?_⟩
  rw [putAt, hengine, hput]
  dsimp only [writeRecord]
  rw [appendTo_find hfind, hgrows]

/-- **The loop over the entries** writes the compacted log. -/
theorem undisturbed_putEntries (hholds : engine.Holds (compactedLog 1 done))
    (hfind : d.find path = some (.regular engine.log.file))
    (hlimits : ∀ entry ∈ entries, entry.1.length ≤ maxKeyBytes ∧ entry.2.length ≤ maxValueBytes)
    (hcount : 1 + (done.length + entries.length) < u64Limit)
    (hsize : engine.log.file.length + entriesSize entries < u64Limit) :
    ∃ (last : LogEngine) (d' : Directory), Succeeds (putEntries path engine entries) d () d' ∧
      last.Holds (compactedLog 1 (done ++ entries)) ∧ d'.find path = some (.regular last.log.file) ∧ ∀ name, name ≠ path → d'.find name = d.find name := by
  induction entries generalizing engine d done with
  | nil =>
    refine ⟨engine, d, .done, ?_, hfind, fun _ _ => rfl⟩
    rw [List.append_nil]
    exact hholds
  | cons entry entries ih =>
    obtain ⟨hfirst, hrest⟩ := List.forall_mem_cons.1 hlimits
    rw [List.length_cons] at hcount
    rw [entriesSize_cons] at hsize
    obtain ⟨previous, next, hput, hnext⟩ := hholds.put_ok hfirst.1 hfirst.2 (by rw [compactedLog_length]; omega) (by omega)
    have hrun := undisturbed_putRecord hholds hfind hput hnext
    have hlen : next.log.file.length = engine.log.file.length + (32 + (entry.1.length + entry.2.length)) := by
      rw [hnext.appended.file_eq, hholds.appended.file_eq, recordsBytes_append, ← List.append_assoc, List.length_append,
        recordsBytes_cons, recordsBytes_nil, List.append_nil, mutationBytes_length]
      rfl
    rw [compactedLog_length, ← compactedLog_concat] at hnext
    obtain ⟨last, d', hloop, hlast, hfound, hothers⟩ := @ih (d.insert path (.regular next.log.file)) next (done ++ [entry])
      hnext (by simp) hrest (by rw [List.length_append, List.length_singleton]; omega) (by omega)
    refine ⟨last, d', runs_bind.2 ⟨next, _, hrun, hloop⟩, ?_, hfound, fun name hne => ?_⟩
    · rw [List.append_cons]
      exact hlast
    · rw [hothers name hne]
      simp [hne]

/-! ### The copy -/

/-- What a verification of the file of an engine reports. -/
def reportOf (engine : LogEngine) : VerificationReport :=
  { fileFormatVersion := fileVersion
    fileBytes := engine.log.file.length
    validBytes := engine.log.acknowledgedValidBytes
    recordCount := engine.log.recordCount
    liveKeys := engine.values.length
    nextSequence := engine.log.nextSequence
    recoverableTail := none }

theorem inspectLog_of_holds (h : engine.Holds ms) : inspectLog engine.log.file = .ok ⟨reportOf engine, engine.values⟩ := by
  rw [inspectLog, Handle.scanFile_of_holds h]
  rfl

theorem verifyLog_of_holds (h : engine.Holds ms) : verifyLog engine.log.file = .ok (reportOf engine) := by
  rw [verifyLog, Handle.scanFile_of_holds h]
  rfl

theorem undisturbed_discarding {α : Type} {names : List Name} {result : Except GenerationError α} {a : α}
    (h : result = .ok a) : Succeeds (discarding names result) d a d := by
  subst h
  exact .done

/-- The staging file is built. -/
theorem undisturbed_buildStaging {verification : VerificationReport} (h : engine.Holds ms) (hstaging : ¬ d.Has staging) :
    ∃ (copy : LogEngine) (d' : Directory), Succeeds (buildStaging staging ⟨verification, engine.values⟩) d () d' ∧
      copy.Holds (compactedLog 1 engine.values) ∧ d'.find staging = some (.regular copy.log.file) ∧
      ∀ name, name ≠ staging → d'.find name = d.find name := by
  obtain ⟨empty, d₁, hcreate, hempty, hfind, hothers⟩ := undisturbed_createLog hstaging
  have hvalues := h.values
  have hlive := LogEngine.length_replayAll_le ms
  have hpaid := entriesSize_replayAll_le ms
  have hcount := h.appended.sequence_lt
  have hsize := h.appended.length_lt
  rw [← hvalues] at hlive hpaid
  have hheader : empty.log.file.length = encodeFileHeader.length := by
    rw [hempty.appended.file_eq, recordsBytes_nil, List.append_nil]
  rw [h.appended.file_eq, List.length_append] at hsize
  obtain ⟨copy, d₂, hput, hcopy, hfound, hrest⟩ := @undisturbed_putEntries d₁ staging empty engine.values [] hempty hfind
    (hvalues ▸ limits_of_replayAll h.appended.writable) (by rw [List.length_nil]; omega) (by omega)
  refine ⟨copy, d₂, ?_, hcopy, hfound, fun name hne => (hrest name hne).trans (hothers name hne)⟩
  unfold buildStaging
  exact runs_bind.2 ⟨.ok (), d₂, Task.runs_attempt.2 ⟨_, rfl, runs_bind.2 ⟨empty, d₁, hcreate, hput⟩⟩, .done⟩

/-- What the compaction reports. -/
def copyReport (source copy : LogEngine) : LogCompactionReport :=
  { sourceFileBytes := source.log.file.length
    sourceRecordCount := source.log.recordCount
    liveKeys := source.values.length
    compactedFileBytes := copy.log.file.length
    compactedRecordCount := copy.log.recordCount
    reclaimedBytes := source.log.file.length - copy.log.file.length
    stagingRetained := false }

/-- The copy is not larger than its source. -/
theorem copy_length_le {copy : LogEngine} (h : engine.Holds ms) (hcopy : copy.Holds (compactedLog 1 engine.values)) :
    copy.log.file.length ≤ engine.log.file.length := by
  have hpaid := entriesSize_replayAll_le ms
  rw [hcopy.appended.file_eq, h.appended.file_eq, List.length_append, List.length_append, recordsBytes_compactedLog,
    h.values]
  omega

/-- **The compaction succeeds**, and leaves the copy at the output and everything else as it was. -/
theorem undisturbed_compactLogThrough (h : engine.Holds ms) (hsource : d.find source = some (.regular engine.log.file))
    (houtput : ¬ d.Has output) (hstaging : ¬ d.Has staging) (hne : staging ≠ output) :
    ∃ copy : LogEngine, copy.Holds (compactedLog 1 engine.values) ∧
      Succeeds (compactLogThrough staging source output) d (copyReport engine copy)
        (d.insert output (.regular copy.log.file)) := by
  have hs := undisturbing_success
  have hhas : d.Has source := by
    rw [Directory.Has, hsource]
    rfl
  have hsource_output : source ≠ output := fun heq => houtput (heq ▸ hhas)
  have hsource_staging : source ≠ staging := fun heq => hstaging (heq ▸ hhas)
  have hverify := verifyLog_of_holds h
  have hinspect := inspectLog_of_holds h
  obtain ⟨copy, d₁, hbuild, hcopy, hfound, hothers⟩ := @undisturbed_buildStaging d staging engine ms (reportOf engine) h hstaging
  have hcopied := inspectLog_of_holds hcopy
  have hsorted : SortedBy Prod.fst engine.values := h.values ▸ sortedBy_replayAll' ms
  have hvalues : copy.values = engine.values := hcopy.values.trans (replayAll_compactedLog hsorted)
  have hrecords : copy.log.recordCount = engine.values.length := by
    rw [hcopy.appended.recordCount, compactedLog_length]
  have hsource₁ : d₁.find source = some (.regular engine.log.file) := (hothers source hsource_staging).trans hsource
  have houtput₁ : ¬ d₁.Has output := by
    rw [Directory.Has, hothers output hne.symm]
    exact houtput
  have hfinal : (d₁.insert output (.regular copy.log.file)).remove staging =
      d.insert output (.regular copy.log.file) := by
    refine Directory.ext_find fun name => ?_
    rw [Directory.find_remove, Directory.find_insert, Directory.find_insert]
    by_cases hname : name = staging
    · rw [if_pos hname, if_neg (hname ▸ hne), hname, Directory.not_has_iff.1 hstaging]
    · rw [if_neg hname, hothers name hname]
  have hsame : validateCompactedState ⟨reportOf engine, engine.values⟩ ⟨reportOf copy, copy.values⟩ = .ok () := by
    unfold validateCompactedState
    rw [if_neg (by simp [reportOf]), if_neg]
    simp [reportOf, hrecords, hvalues]
  have hpublished : (d₁.insert output (.regular copy.log.file)).find output = some (.regular copy.log.file) := by
    rw [Directory.find_insert, if_pos rfl]
  have hstaged : (d₁.insert output (.regular copy.log.file)).Has staging := by
    rw [Directory.has_insert, Directory.Has, hfound]
    exact .inr rfl
  refine ⟨copy, hcopy, ?_⟩
  unfold compactLogThrough
  -- The checks of the paths, and the first look at the source.
  refine runs_bind.2 ⟨_, d, (runs_readRegular hs).2 ⟨hsource, rfl⟩, ?_⟩
  refine runs_bind.2 ⟨(), d, (runs_requireAbsent hs).2 ⟨houtput, rfl⟩, ?_⟩
  refine runs_bind.2 ⟨(), d, runs_rejectWhen.2 ⟨hsource_output, rfl⟩, ?_⟩
  refine runs_bind.2 ⟨(), d, runs_rejectWhen.2 ⟨hsource_staging, rfl⟩, ?_⟩
  refine runs_bind.2 ⟨(), d, (runs_requireAbsent hs).2 ⟨hstaging, rfl⟩, ?_⟩
  refine runs_bind.2 ⟨_, d, (runs_readRegular hs).2 ⟨hsource, rfl⟩, ?_⟩
  refine runs_bind.2 ⟨_, d, runs_ofExcept.2 ⟨hverify, rfl⟩, ?_⟩
  refine runs_bind.2 ⟨(), d, runs_rejectWhen.2 ⟨by simp [reportOf], rfl⟩, ?_⟩
  refine runs_bind.2 ⟨_, d, (runs_inspectAt hs).2 ⟨rfl, _, hsource, hinspect⟩, ?_⟩
  refine runs_bind.2 ⟨(), d, runs_rejectWhen.2 ⟨not_not.2 rfl, rfl⟩, ?_⟩
  -- The staging file, and the comparison with the source.
  refine runs_bind.2 ⟨(), d₁, hbuild, ?_⟩
  refine runs_bind.2 ⟨_, d₁, Task.runs_attempt.2 ⟨_, rfl, (runs_inspectAt hs).2 ⟨rfl, _, hfound, hcopied⟩⟩, ?_⟩
  refine runs_bind.2 ⟨_, d₁, undisturbed_discarding rfl, ?_⟩
  refine runs_bind.2 ⟨(), d₁, undisturbed_discarding hsame, ?_⟩
  refine runs_bind.2 ⟨_, d₁, Task.runs_attempt.2 ⟨_, rfl, (runs_inspectAt hs).2 ⟨rfl, _, hsource₁, hinspect⟩⟩, ?_⟩
  refine runs_bind.2 ⟨_, d₁, undisturbed_discarding rfl, ?_⟩
  refine runs_bind.2 ⟨(), d₁, undisturbed_discarding (if_neg (not_not.2 rfl)), ?_⟩
  -- The publication, and the look at what was published.
  refine runs_bind.2 ⟨.ok (), d₁.insert output (.regular copy.log.file),
    Task.runs_attempt.2 ⟨.ok (), rfl, (runs_hardLink hs).2 ⟨_, hfound, houtput₁, rfl⟩⟩, ?_⟩
  refine runs_bind.2 ⟨(), _, undisturbed_discarding rfl, ?_⟩
  refine runs_bind.2 ⟨_, _, Task.runs_attempt.2 ⟨_, rfl, (runs_inspectAt hs).2 ⟨rfl, _, hpublished, hcopied⟩⟩, ?_⟩
  refine runs_bind.2 ⟨_, _, undisturbed_discarding rfl, ?_⟩
  refine runs_bind.2 ⟨(), _, undisturbed_discarding (if_neg (not_not.2 rfl)), ?_⟩
  refine runs_bind.2 ⟨(), _, undisturbed_discarding (if_neg (not_lt.2 (copy_length_le h hcopy))), ?_⟩
  refine runs_bind.2 ⟨false, d.insert output (.regular copy.log.file), ?_, runs_pure.2 ⟨rfl, rfl⟩⟩
  unfold removeQuietly
  exact runs_bind.2 ⟨.ok (), _, Task.runs_attempt.2 ⟨.ok (), rfl, (runs_removeFile hs).2 ⟨hstaged, hfinal.symm⟩⟩, .done⟩

/-- The bytes of the copy. -/
theorem copy_file {copy : LogEngine} (hcopy : copy.Holds (compactedLog 1 entries)) :
    copy.log.file = encodeFileHeader ++ recordFormat.recordsBytes (compactedLog 1 entries) :=
  hcopy.appended.file_eq

/-- **The compact copy** of a log that an engine has written, with any sequence of puts and deletes. The compaction
succeeds; the output has one put for every live key, in the order of the keys and numbered from one, replays to the
live entries and is not larger than the source, which is as before; and a compaction of the output has the same
bytes again. -/
theorem compact_copy {ops : List Op} {start written : LogEngine} {d : Directory} {staging source output : Name}
    (hstart : LogEngine.createNew = .ok start) (hwritten : (LogEngine.performAll ops start).2 = written)
    (hsource : d.find source = some (.regular written.log.file)) (houtput : ¬ d.Has output)
    (hstaging : ¬ d.Has staging) (hne : staging ≠ output) :
    ∃ copy : LogEngine,
      (compactLogThrough staging source output).run d =
        (.ok (copyReport written copy), d.insert output (.regular copy.log.file)) ∧
      copy.log.file = encodeFileHeader ++ recordFormat.recordsBytes (compactedLog 1 written.values) ∧
      (∃ scan, scanFile copy.log.file = .ok scan ∧ scan.values = written.values ∧ scan.recoverableTail = none ∧
        scan.recordCount = written.values.length) ∧
      copy.log.file.length ≤ written.log.file.length ∧
      (d.insert output (.regular copy.log.file)).find source = d.find source ∧
      ∀ staging' output', ¬ (d.insert output (.regular copy.log.file)).Has output' →
        ¬ (d.insert output (.regular copy.log.file)).Has staging' → staging' ≠ output' →
          ∃ report, (compactLogThrough staging' output output').run (d.insert output (.regular copy.log.file)) =
            (.ok report, (d.insert output (.regular copy.log.file)).insert output' (.regular copy.log.file)) := by
  obtain ⟨start', hcreate, hempty⟩ := LogEngine.exists_createNew
  obtain rfl : start' = start := Except.ok.inj (hcreate.symm.trans hstart)
  obtain ⟨ms, hholds⟩ : ∃ ms, written.Holds ms := ⟨_, hwritten ▸ hempty.performAll ops⟩
  obtain ⟨copy, hcopy, hrun⟩ := undisturbed_compactLogThrough hholds hsource houtput hstaging hne
  have hsorted : SortedBy Prod.fst written.values := hholds.values ▸ sortedBy_replayAll' ms
  have hvalues : copy.values = written.values := hcopy.values.trans (replayAll_compactedLog hsorted)
  have hpresent : source ≠ output := by
    rintro rfl
    rw [Directory.Has, hsource] at houtput
    exact houtput rfl
  refine ⟨copy, Task.run_eq_iff.2 hrun, copy_file hcopy, ⟨_, Handle.scanFile_of_holds hcopy, hvalues, rfl, ?_⟩,
    copy_length_le hholds hcopy, ?_, fun staging' output' houtput' hstaging' hne' => ?_⟩
  · dsimp only
    rw [hcopy.appended.recordCount, compactedLog_length]
  · rw [Directory.find_insert, if_neg hpresent]
  · obtain ⟨again, hagain, hrun'⟩ := undisturbed_compactLogThrough hcopy
      (show (d.insert output (.regular copy.log.file)).find output = some (.regular copy.log.file) by
        rw [Directory.find_insert, if_pos rfl]) houtput' hstaging' hne'
    have hbytes : again.log.file = copy.log.file := by
      rw [copy_file hagain, copy_file hcopy, hvalues]
    rw [hbytes] at hrun'
    exact ⟨_, Task.run_eq_iff.2 hrun'⟩

/-- The engine of a new log. -/
def newLog : LogEngine := ⟨⟨encodeFileHeader, 1, 0, 16, encodeFileHeader⟩, [], none, false⟩

/-- A key is put twice, and another one is put and deleted. -/
def writtenLog : LogEngine := (LogEngine.performAll [.put [1] [2], .put [4] [], .put [1] [3], .delete [4]] newLog).2

/-- One record is left. -/
theorem compact_copy_one :
    ∃ copy report,
      (compactLogToFreshFile ['a'] ['b']).run (Directory.empty.insert ['a'] (.regular writtenLog.log.file)) =
        (.ok report, (Directory.empty.insert ['a'] (.regular writtenLog.log.file)).insert ['b'] (.regular copy)) ∧
      copy = encodeFileHeader ++ recordFormat.recordsBytes [⟨1, [1], some [3]⟩] := by
  have hstart : LogEngine.createNew = .ok newLog := by decide +kernel
  have hvalues : writtenLog.values = [([1], [3])] := by decide +kernel
  have habsent : ∀ name, name ≠ ['a'] → ¬ (Directory.empty.insert ['a'] (.regular writtenLog.log.file)).Has name := by
    intro name hname
    rw [Directory.has_insert, not_or]
    exact ⟨hname, by simp [Directory.Has, Directory.empty, Directory.find]⟩
  obtain ⟨copy, hrun, hfile, -⟩ := @compact_copy [.put [1] [2], .put [4] [], .put [1] [3], .delete [4]] newLog writtenLog
    (Directory.empty.insert ['a'] (.regular writtenLog.log.file)) (compactingName ['b']) ['a'] ['b'] hstart rfl
    (by rw [Directory.find_insert, if_pos rfl]) (habsent _ (by decide)) (habsent _ (by decide)) (by decide)
  rw [hvalues] at hfile
  exact ⟨copy.log.file, _, hrun, hfile⟩

end DbLab.Generation
