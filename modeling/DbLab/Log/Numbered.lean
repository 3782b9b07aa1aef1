import DbLab.Log.Engine
import DbLab.Record.Explain

/-!
# Logs of numbered entries

A store that puts every transaction under a key with its number, and the numbers from one on, has a log whose
sequence numbers are the numbers of the transactions. Where the keys sort as the numbers, the live entries of
the log are the transactions in order, whole or cut.
-/

namespace DbLab.Log

open Record RecordFormat

variable {α : Type} {key : ℕ → Bytes} {bytes : ℕ → α → Bytes} {n m k : ℕ} {a : α} {as : List α}

/-- The records of items that are put one after another, the first one under the number `n`. -/
def numberedLog (key : ℕ → Bytes) (bytes : ℕ → α → Bytes) : ℕ → List α → List Mutation
  | _, [] => []
  | n, a :: as => ⟨n, key n, some (bytes n a)⟩ :: numberedLog key bytes (n + 1) as

/-- The live entries of these records. -/
def numberedEntries (key : ℕ → Bytes) (bytes : ℕ → α → Bytes) : ℕ → List α → List (Bytes × Bytes)
  | _, [] => []
  | n, a :: as => (key n, bytes n a) :: numberedEntries key bytes (n + 1) as

@[simp] theorem numberedLog_length : (numberedLog key bytes n as).length = as.length := by
  induction as generalizing n with
  | nil => rfl
  | cons a as ih => rw [numberedLog, List.length_cons, ih, List.length_cons]

@[simp] theorem numberedEntries_length : (numberedEntries key bytes n as).length = as.length := by
  induction as generalizing n with
  | nil => rfl
  | cons a as ih => rw [numberedEntries, List.length_cons, ih, List.length_cons]

theorem numberedLog_concat : numberedLog key bytes n (as ++ [a]) =
    numberedLog key bytes n as ++ [⟨n + as.length, key (n + as.length), some (bytes (n + as.length) a)⟩] := by
  induction as generalizing n with
  | nil => rfl
  | cons first as ih =>
    have hlen : n + 1 + as.length = n + (first :: as).length := by
      rw [List.length_cons]
      omega
    rw [List.cons_append, numberedLog, numberedLog, ih, hlen, List.cons_append]

theorem numberedLog_take : (numberedLog key bytes n as).take k = numberedLog key bytes n (as.take k) := by
  induction as generalizing n k with
  | nil => rw [List.take_nil, numberedLog, List.take_nil]
  | cons a as ih =>
    cases k with
    | zero => rfl
    | succ k => rw [numberedLog, List.take_succ_cons, List.take_succ_cons, numberedLog, ih]

section Replay

variable (hkey : ∀ {n m}, n < m → m < u64Limit → key n < key m)

include hkey

/-- The records of the log, replayed in front of larger keys, are its entries. -/
theorem foldl_replay_numberedLog {values : Values} (hvalues : ∀ entry ∈ values, entry.1 < key n)
    (hlimit : n + as.length ≤ u64Limit) :
    (numberedLog key bytes n as).foldl replay values = values ++ numberedEntries key bytes n as := by
  induction as generalizing n values with
  | nil => rw [numberedLog, numberedEntries, List.foldl_nil, List.append_nil]
  | cons a as ih =>
    rw [List.length_cons] at hlimit
    have hstep : replay values ⟨n, key n, some (bytes n a)⟩ = values ++ [(key n, bytes n a)] := by
      show upsertBy Prod.fst (key n, bytes n a) values = _
      have hlast := @upsertBy_append_right _ _ _ Prod.fst (key n, bytes n a) values [] hvalues
      rw [List.append_nil] at hlast
      exact hlast
    have hsnoc : values ++ (key n, bytes n a) :: numberedEntries key bytes (n + 1) as =
        values ++ [(key n, bytes n a)] ++ numberedEntries key bytes (n + 1) as := List.append_cons ..
    rw [numberedLog, List.foldl_cons, hstep, numberedEntries, hsnoc]
    by_cases hlast : as = []
    · subst hlast
      rw [numberedLog, numberedEntries, List.foldl_nil, List.append_nil]
    · have hpos := List.length_pos_iff.2 hlast
      refine @ih (n + 1) _ (fun entry hentry => ?_) (by omega)
      have hnext : key n < key (n + 1) := hkey (Nat.lt_succ_self n) (by omega)
      rcases List.mem_append.1 hentry with hentry | hentry
      · exact (hvalues entry hentry).trans hnext
      · rw [List.mem_singleton.1 hentry]
        exact hnext

/-- **The live entries are the items, in order.** -/
theorem replayAll_numberedLog (hlimit : n + as.length ≤ u64Limit) :
    replayAll (numberedLog key bytes n as) = numberedEntries key bytes n as := by
  have h := @foldl_replay_numberedLog _ _ bytes n as hkey [] (fun _ hentry => absurd hentry List.not_mem_nil) hlimit
  rw [List.nil_append] at h
  exact h

end Replay

/-! ### Opening a file that was cut -/

/-- The log of an engine, cut behind its header, opens with the records before the cut. -/
theorem openFile_of_cut {engine : LogEngine} {ms : List Mutation} {tail : Bytes} (h : engine.Holds ms)
    (hcut : recordFormat.Cut ms n k tail) :
    ∃ engine', LogEngine.openFile (some (engine.log.file.take (fileHeaderLen + n))) = .ok engine' ∧
      engine'.Holds (ms.take k) := by
  have hscan := h.scanFile_cut hcut
  obtain ⟨engine', hopen, -, hfile⟩ := LogEngine.openFile_of_scan hscan
  obtain ⟨ms', hholds⟩ := LogEngine.holds_of_openFile hopen
  have htake : engine.log.file.take (fileHeaderLen + n) =
      encodeFileHeader ++ (recordFormat.recordsBytes (ms.take k) ++ tail) := by
    rw [h.appended.file_eq, ← encodeFileHeader_length, List.take_append, List.take_of_length_le (by omega),
      Nat.add_sub_cancel_left, hcut.take_eq]
  have hvalid : recordFormat.recordStart fileHeaderLen ms k =
      (encodeFileHeader ++ recordFormat.recordsBytes (ms.take k)).length := by
    rw [List.length_append, encodeFileHeader_length]
    rfl
  have hrepaired : engine'.log.file = encodeFileHeader ++ recordFormat.recordsBytes (ms.take k) := by
    rw [hfile]
    dsimp only
    rw [cutTail]
    by_cases hempty : tail = []
    · rw [if_pos hempty, if_neg (by simp), htake, hempty, List.append_nil]
    · rw [if_neg hempty, Option.isSome_some, if_pos rfl, htake, hvalid, ← List.append_assoc, List.take_left]
  have hbytes : recordFormat.recordsBytes ms' = recordFormat.recordsBytes (ms.take k) := by
    rw [hholds.appended.file_eq] at hrepaired
    exact List.append_cancel_left hrepaired
  -- Records are read back in one way only.
  have hwritable : ∀ m ∈ ms.take k, Writable m := fun m hm => h.appended.writable m (List.mem_of_mem_take hm)
  have hconsecutive := h.appended.consecutive.take k
  have hlimit : 1 + (ms.take k).length ≤ u64Limit := by
    have hlt := h.appended.sequence_lt
    rw [List.length_take]
    omega
  have hforward := prefix_of_recordsBytes hholds.appended.writable hwritable hholds.appended.consecutive
    hconsecutive hholds.appended.sequence_lt.le (by rw [hbytes])
  have hbackward := prefix_of_recordsBytes hwritable hholds.appended.writable hconsecutive
    hholds.appended.consecutive hlimit (by rw [hbytes])
  have hsame : ms' = ms.take k := hforward.eq_of_length (hforward.length_le.antisymm hbackward.length_le)
  exact ⟨engine', hopen, hsame ▸ hholds⟩

end DbLab.Log
