import DbLab.Record.Cut

/-!
# Appending records

The part that the append log and the write-ahead log share of a handle that appends: the file, what
of it is acknowledged, and the numbers of the next record. The fingerprint of the acknowledged prefix
is kept as the bytes that were hashed. `Appended` says that the file is the header and the records of
the mutations so far; every append keeps it.
-/

namespace DbLab.Record

structure Appender where
  file : Bytes
  nextSequence : ℕ
  recordCount : ℕ
  acknowledgedValidBytes : ℕ
  /-- The bytes that the fingerprint of the acknowledged prefix was computed from. -/
  acknowledgedPrefix : Bytes
  deriving DecidableEq

/-- The error texts of an append. -/
structure AppendTexts where
  sequenceExhausted : String
  countExhausted : String
  lengthOverflow : String
  eofChanged : ℕ → ℕ → String
  prefixChanged : String

/-- A mutation that is asked of an engine. -/
inductive Op
  | put (key value : Bytes)
  | delete (key : Bytes)
  deriving DecidableEq

namespace Op

/-- The mutation of an operation under a sequence number. -/
def mutation (sequence : ℕ) : Op → Mutation
  | put key value => ⟨sequence, key, some value⟩
  | delete key => ⟨sequence, key, none⟩

def kind : Op → RecordKind
  | put _ _ => .put
  | delete _ => .delete

def key : Op → Bytes
  | put key _ => key
  | delete key => key

/-- The value bytes of the record. -/
def value : Op → Bytes
  | put _ value => value
  | delete _ => []

variable {op : Op} {sequence : ℕ}

@[simp] theorem mutation_sequence : (op.mutation sequence).sequence = sequence := by cases op <;> rfl

@[simp] theorem mutation_kind : (op.mutation sequence).kind = op.kind := by cases op <;> rfl

@[simp] theorem mutation_key : (op.mutation sequence).key = op.key := by cases op <;> rfl

@[simp] theorem mutation_valueBytes : (op.mutation sequence).valueBytes = op.value := by
  cases op <;> rfl

end Op

namespace Appender

/-- The handle behind the record, in front of any access to the file. -/
def prepare (fmt : RecordFormat) (texts : AppendTexts) (a : Appender) (kind : RecordKind)
    (key value : Bytes) : Except DbError Appender := do
  let followingSequence ← checkedSucc a.nextSequence (.corruption 0 texts.sequenceExhausted)
  let followingRecordCount ← checkedSucc a.recordCount (.corruption 0 texts.countExhausted)
  let record ← fmt.encodeRecord kind a.nextSequence key value
  let followingAcknowledgedValidBytes ← checkedAdd a.acknowledgedValidBytes record.length
    (.corruption 0 texts.lengthOverflow)
  .ok { file := a.file ++ record
        nextSequence := followingSequence
        recordCount := followingRecordCount
        acknowledgedValidBytes := followingAcknowledgedValidBytes
        acknowledgedPrefix := a.acknowledgedPrefix ++ record }

/-- The check that the file is still the acknowledged one. -/
def validate (texts : AppendTexts) (a : Appender) : Except DbError Unit := do
  failWhen (a.file.length ≠ a.acknowledgedValidBytes)
    (.corruption a.file.length (texts.eofChanged a.file.length a.acknowledgedValidBytes))
  failWhen (crc32 (a.file.take a.acknowledgedValidBytes) ≠ crc32 a.acknowledgedPrefix)
    (.corruption 0 texts.prefixChanged)

variable {fmt : RecordFormat} {texts : AppendTexts} {a b : Appender} {op : Op} {header : Bytes} {first : ℕ} {ms : List Mutation}

/-- The file is the header and the records of the mutations, all of them acknowledged. -/
structure Appended (fmt : RecordFormat) (header : Bytes) (first : ℕ) (a : Appender)
    (ms : List Mutation) : Prop where
  file_eq : a.file = header ++ fmt.recordsBytes ms
  writable : ∀ m ∈ ms, RecordFormat.Writable m
  consecutive : RecordFormat.Consecutive first ms
  nextSequence : a.nextSequence = first + ms.length
  recordCount : a.recordCount = ms.length
  acknowledged : a.acknowledgedValidBytes = a.file.length
  acknowledgedPrefix : a.acknowledgedPrefix = a.file
  sequence_lt : first + ms.length < u64Limit
  count_lt : ms.length < u64Limit
  length_lt : a.file.length < u64Limit

theorem Appended.validate (h : Appended fmt header first a ms) : a.validate texts = .ok () := by
  unfold Appender.validate
  rw [failWhen_eq_ok (u := ()) |>.2 (by simp [h.acknowledged]), Checked.ok_bind, failWhen_eq_ok, not_not,
    h.acknowledged, List.take_length, h.acknowledgedPrefix]

/-- **An append keeps the records and adds one.** -/
theorem Appended.prepare (h : Appended fmt header first a ms)
    (hp : a.prepare fmt texts op.kind op.key op.value = .ok b) :
    Appended fmt header first b (ms ++ [op.mutation a.nextSequence]) := by
  unfold Appender.prepare at hp
  simp only [Checked.bind_eq_ok, checkedSucc_eq_ok, checkedAdd_eq_ok, RecordFormat.encodeRecord_eq_ok,
    Except.ok.injEq] at hp
  obtain ⟨next, ⟨hnext, rfl⟩, count, ⟨hcount, rfl⟩, record, ⟨hadm, rfl⟩, len, ⟨hlen, rfl⟩, rfl⟩ := hp
  have hbytes : fmt.recordBytes op.kind a.nextSequence op.key op.value =
      fmt.mutationBytes (op.mutation a.nextSequence) := by
    simp [RecordFormat.mutationBytes]
  constructor
  · rw [RecordFormat.recordsBytes_append, ← List.append_assoc, ← h.file_eq, hbytes,
      RecordFormat.recordsBytes_cons, RecordFormat.recordsBytes_nil, List.append_nil]
  · intro x hx
    rcases List.mem_append.1 hx with hx | hx
    · exact h.writable x hx
    · rw [List.mem_singleton.1 hx, RecordFormat.Writable]
      simpa using hadm
  · rw [RecordFormat.consecutive_append]
    exact ⟨h.consecutive, Op.mutation_sequence.trans h.nextSequence, trivial⟩
  · simp [h.nextSequence, Nat.add_assoc]
  · simp [h.recordCount]
  · simp only [List.length_append]
    rw [h.acknowledged]
  · simp only
    rw [h.acknowledgedPrefix]
  · rw [List.length_append, List.length_singleton]
    have := h.nextSequence
    omega
  · rw [List.length_append, List.length_singleton]
    have := h.recordCount
    omega
  · simp only [List.length_append]
    rw [← h.acknowledged]
    exact hlen

/-- The header of a file that was cut behind it. -/
theorem Appended.take_header (h : Appended fmt header first a ms) (n : ℕ) :
    (a.file.take (header.length + n)).take header.length = header := by
  rw [List.take_take, min_eq_left (Nat.le_add_right ..), h.file_eq, List.take_left]

/-- **The scan of a file that an appender wrote, cut behind the header.** -/
theorem Appended.scan_cut {σ : Type} (h : Appended fmt header first a ms) {n k : ℕ} {tail : Bytes}
    (hcut : fmt.Cut ms n k tail) (apply : σ → Mutation → Except DbError σ) (values : σ) :
    fmt.scanRecords apply (a.file.take (header.length + n)).length
        (a.file.take (header.length + n)).length ((a.file.take (header.length + n)).drop header.length)
        ⟨header.length, first, 0, values⟩ =
      ((ms.take k).foldlM apply values >>= fun v => .ok
        { fileBytes := (a.file.take (header.length + n)).length
          validBytes := fmt.recordStart header.length ms k
          recordCount := k
          nextSequence := first + k
          recoverableTail := fmt.cutTail header.length ms k tail
          values := v }) := by
  have hfile : a.file.take (header.length + n) = header ++ (fmt.recordsBytes ms).take n := by
    rw [h.file_eq, List.take_append, List.take_of_length_le (Nat.le_add_right ..),
      Nat.add_sub_cancel_left]
  have hlen := h.length_lt
  rw [h.file_eq, List.length_append] at hlen
  have hscan := @RecordFormat.scanRecords_cut σ fmt apply ms ⟨header.length, first, 0, values⟩ tail
    (a.file.take (header.length + n)).length n k hcut h.writable h.consecutive
    h.sequence_lt (by simpa using h.count_lt) hlen (by rw [hfile, List.length_append]; omega)
  rw [hfile, List.drop_left, List.length_append]
  rw [hfile, List.length_append] at hscan
  rw [hscan]
  simp only [Cursor.result, Nat.zero_add]

end Appender
end DbLab.Record
