import DbLab.Log.Engine
import DbLab.Lsm.Wal
import DbLab.Record.Explain

/-!
# Recovery of the two logs

The append log and the write-ahead log recover from a file that was cut (`scan_of_cut`): the scan
replays the records before the cut and reports the rest. On files in general (`scan_sound_iff`) it is
too lenient with some tails, which the counterexample shows on a key length of which two bytes are
present.
-/

namespace DbLab.Record

open RecordFormat Log Lsm

/-! ### Files that were cut -/

/-- **Truncation law.** Whatever mutations an engine acknowledges and wherever the file is cut behind
its header, the scan succeeds and replays the records before the cut. -/
theorem scan_of_cut :
    (∃ engine, LogEngine.createNew = .ok engine ∧ ∀ (ops : List Op) (n : ℕ),
      ∃ k r, recordFormat.CutAt fileHeaderLen (LogEngine.performAll ops engine).1 (fileHeaderLen + n) k ∧
        scanFile ((LogEngine.performAll ops engine).2.log.file.take (fileHeaderLen + n)) = .ok r ∧
        r.values = replayAll ((LogEngine.performAll ops engine).1.take k) ∧
        Reports recordFormat fileHeaderLen 1 (LogEngine.performAll ops engine).1
          (fileHeaderLen + n) k r) ∧
    ∀ walId firstSequence, WalHeaderOk walId firstSequence →
      ∃ wal, Wal.createNew walId firstSequence = .ok wal ∧ ∀ (ops : List Op) (n : ℕ),
        ∃ k, walRecordFormat.CutAt walHeaderLen (Wal.appendAll ops wal).1 (walHeaderLen + n) k ∧
          ∀ (σ : Type) (apply : σ → Mutation → Except DbError σ) (values : σ),
            ∃ r : σ → ScanResult σ,
              (∀ v, (r v).values = v ∧ Reports walRecordFormat walHeaderLen firstSequence
                (Wal.appendAll ops wal).1 (walHeaderLen + n) k (r v)) ∧
              scanWal apply values ((Wal.appendAll ops wal).2.log.file.take (walHeaderLen + n)) walId
                  firstSequence =
                (((Wal.appendAll ops wal).1.take k).foldlM apply values >>= fun v => .ok (r v)) := by
  refine ⟨?_, ?_⟩
  · obtain ⟨engine, hcreate, hholds⟩ := LogEngine.exists_createNew
    refine ⟨engine, hcreate, fun ops n => ?_⟩
    have h := hholds.performAll ops
    rw [List.nil_append] at h
    obtain ⟨k, tail, hcut⟩ := exists_cut recordFormat (LogEngine.performAll ops engine).1 n
    exact ⟨k, _, hcut.numbers.1, h.scanFile_cut hcut, rfl, hcut.reports _ _⟩
  · intro walId firstSequence hok
    obtain ⟨wal, hcreate⟩ : ∃ wal, Wal.createNew walId firstSequence = .ok wal :=
      ⟨_, if_neg (not_or.2 ⟨hok.1.ne', hok.2.2.1.ne'⟩)⟩
    refine ⟨wal, hcreate, fun ops n => ?_⟩
    have h := (Wal.createNew_holds hok.2.1 hok.2.2.2 hcreate).2.appendAll ops
    rw [List.nil_append] at h
    obtain ⟨k, tail, hcut⟩ := exists_cut walRecordFormat (Wal.appendAll ops wal).1 n
    exact ⟨k, hcut.numbers.1, fun σ apply values =>
      ⟨_, fun v => ⟨rfl, hcut.reports _ v⟩, h.scanWal_cut hok hcut apply values⟩⟩

/-- The law at the first segment. -/
theorem scan_of_cut_first_segment :
    WalHeaderOk 1 1 ∧ ∃ wal, Wal.createNew 1 1 = .ok wal ∧ ∀ (ops : List Op) (n : ℕ),
      ∃ k, walRecordFormat.CutAt walHeaderLen (Wal.appendAll ops wal).1 (walHeaderLen + n) k := by
  have hok : WalHeaderOk 1 1 := by
    unfold WalHeaderOk
    rw [u64Limit_eq]
    decide
  obtain ⟨wal, hcreate, hrun⟩ := scan_of_cut.2 1 1 hok
  exact ⟨hok, wal, hcreate, fun ops n => (hrun ops n).imp fun k h => h.1⟩

/-! ### Files in general -/

/-- Collect the mutations that the write-ahead log hands out. -/
def collect (ms : List Mutation) (m : Mutation) : Except DbError (List Mutation) := .ok (ms ++ [m])

theorem foldlM_collect (ms collected : List Mutation) :
    ms.foldlM collect collected = .ok (collected ++ ms) := by
  induction ms generalizing collected with
  | nil => rw [List.append_nil]; rfl
  | cons m ms ih =>
    rw [List.foldlM_cons, collect, Checked.ok_bind, ih, List.append_assoc, List.singleton_append]

/-- A log with a tail that the scan lets pass and that no record starts with. -/
def OverlooksTail (fmt : RecordFormat) (header : Bytes) (first : ℕ) (file : Bytes) : Prop :=
  ∃ ms tail, Layout fmt header first file ms tail ∧
    fmt.Overlooked (header.length + (fmt.recordsBytes ms).length) (first + ms.length) tail

theorem scanFile_explained_iff (file : Bytes) :
    (∀ r, scanFile file = .ok r →
      ∃ ms, Explains recordFormat encodeFileHeader 1 file r ms ∧ r.values = replayAll ms) ↔
    ¬ OverlooksTail recordFormat encodeFileHeader 1 file := by
  by_cases hhead : file.take fileHeaderLen = encodeFileHeader
  · have hlong : ¬ file.length < fileHeaderLen := by
      have := congrArg List.length hhead
      rw [List.length_take, encodeFileHeader_length] at this
      omega
    rw [OverlooksTail, ← @explains_iff _ _ (fun values m => .ok (replay values m)) _ _ _ []
      (fun s m => ⟨_, rfl⟩) (by rw [u64Limit_eq]; decide)
      (by rw [encodeFileHeader_length, u64Limit_eq]; decide) (by rwa [encodeFileHeader_length])]
    rw [scanFile, if_neg hlong, hhead,
      (validateFileHeader_eq_ok (u := ()) encodeFileHeader_length).2 rfl, Checked.ok_bind,
      encodeFileHeader_length]
    refine forall_congr' fun r => imp_congr_right fun _ => exists_congr fun ms => and_congr_right fun _ => ?_
    rw [foldlM_replay, Except.ok.injEq, eq_comm]
    rfl
  · refine iff_of_true (fun r hr => absurd ?_ hhead) ?_
    · rw [scanFile] at hr
      by_cases hshort : file.length < fileHeaderLen
      · rw [if_pos hshort] at hr
        cases hr
      · rw [if_neg hshort, Checked.bind_eq_ok] at hr
        obtain ⟨_, hvalid, -⟩ := hr
        exact (validateFileHeader_eq_ok (by rw [List.length_take, min_eq_left (not_lt.1 hshort)])).1 hvalid
    · rintro ⟨ms, tail, hlayout, -⟩
      refine hhead ?_
      rw [hlayout.file_eq, ← encodeFileHeader_length, List.take_left]

theorem scanWal_explained_iff (file : Bytes) (walId firstSequence : ℕ) :
    (∀ r, scanWal collect [] file walId firstSequence = .ok r →
      Explains walRecordFormat (encodeWalHeader walId firstSequence) firstSequence file r r.values) ↔
    ¬ (WalHeaderOk walId firstSequence ∧
      OverlooksTail walRecordFormat (encodeWalHeader walId firstSequence) firstSequence file) := by
  by_cases hhead : WalHeaderOk walId firstSequence ∧
      file.take walHeaderLen = encodeWalHeader walId firstSequence
  · obtain ⟨hok, hhead⟩ := hhead
    have hlong : ¬ file.length < walHeaderLen := by
      have := congrArg List.length hhead
      rw [List.length_take, encodeWalHeader_length] at this
      omega
    rw [and_iff_right hok, OverlooksTail, ← @explains_iff _ _ collect _ _ _ []
      (fun s m => ⟨_, rfl⟩) hok.2.2.2 (by rw [encodeWalHeader_length, u64Limit_eq]; decide)
      (by rwa [encodeWalHeader_length])]
    rw [scanWal, if_neg hlong, hhead,
      (validateWalHeader_eq_ok (u := ()) encodeWalHeader_length).2 ⟨hok, rfl⟩, Checked.ok_bind,
      encodeWalHeader_length]
    refine forall_congr' fun r => imp_congr_right fun _ => ?_
    simp only [foldlM_collect, List.nil_append, Except.ok.injEq]
    constructor
    · intro h
      exact ⟨_, h, rfl⟩
    · rintro ⟨ms, h, rfl⟩
      exact h
  · refine iff_of_true (fun r hr => absurd ?_ hhead) ?_
    · rw [scanWal] at hr
      by_cases hshort : file.length < walHeaderLen
      · rw [if_pos hshort] at hr
        cases hr
      · rw [if_neg hshort, Checked.bind_eq_ok] at hr
        obtain ⟨_, hvalid, -⟩ := hr
        exact (validateWalHeader_eq_ok (by rw [List.length_take, min_eq_left (not_lt.1 hshort)])).1 hvalid
    · rintro ⟨hok, ms, tail, hlayout, -⟩
      refine hhead ⟨hok, ?_⟩
      rw [hlayout.file_eq, ← encodeWalHeader_length, List.take_left]

/-- **What a scan accepts.** A successful scan has read the header, canonical records with consecutive
sequence numbers and a proper prefix of a next record, on exactly the files that do not end in a tail
that it overlooks. -/
theorem scan_explained_iff (file : Bytes) (walId firstSequence : ℕ) :
    ((∀ r, scanFile file = .ok r →
        ∃ ms, Explains recordFormat encodeFileHeader 1 file r ms ∧ r.values = replayAll ms) ↔
      ¬ OverlooksTail recordFormat encodeFileHeader 1 file) ∧
    ((∀ r, scanWal collect [] file walId firstSequence = .ok r →
        Explains walRecordFormat (encodeWalHeader walId firstSequence) firstSequence file r r.values) ↔
      ¬ (WalHeaderOk walId firstSequence ∧
        OverlooksTail walRecordFormat (encodeWalHeader walId firstSequence) firstSequence file)) :=
  ⟨scanFile_explained_iff file, scanWal_explained_iff file walId firstSequence⟩

/-- Eighteen bytes of a record whose key length is at least 4097. -/
def tornKeyLength : Bytes :=
  [75, 86, 76, 71, 1, 1, 0, 0, 1, 0, 0, 0, 0, 0, 0, 0, 1, 16]

theorem scan_unexplained :
    ¬ ∀ file r, scanFile file = .ok r →
      ∃ ms, Explains recordFormat encodeFileHeader 1 file r ms ∧ r.values = replayAll ms := by
  intro h
  refine (scanFile_explained_iff (encodeFileHeader ++ tornKeyLength)).1 (h _)
    ⟨[], tornKeyLength, ⟨rfl, by simp, trivial, ?_, ?_⟩, .lengths .put ?_ (by decide) (by decide) (by decide)⟩
  · rw [u64Limit_eq]
    decide
  · rw [encodeFileHeader_length, u64Limit_eq]
    decide
  · exact ⟨[], by decide⟩

end DbLab.Record
