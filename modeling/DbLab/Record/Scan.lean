import DbLab.Record.Codec

/-!
# The recovery scan

`scanRecords` is the loop of `scan_file` behind the file header: it replays the complete records in
order and stops at the end of the file or at an incomplete last record, which it checks as far as it
is present. What is replayed goes through `apply`, an insertion into a map for the append log and the
memtable for the write-ahead log.

`scanRecords_append` runs the loop over records that the encoder wrote, and `scanRecords_eq_ok` says
that every successful scan has read such records and a tail that is `Torn`.
-/

namespace DbLab.Record

/-- Source `TruncatedTail` and `RecoveredWalTail`. -/
structure TruncatedTail where
  recordOffset : ℕ
  availableBytes : ℕ
  requiredBytes : Option ℕ
  deriving DecidableEq, Repr

/-- Source `ScanResult`, with what the replay has built. -/
structure ScanResult (σ : Type) where
  fileBytes : ℕ
  validBytes : ℕ
  recordCount : ℕ
  nextSequence : ℕ
  recoverableTail : Option TruncatedTail
  values : σ
  deriving DecidableEq

/-- The variables of the loop. -/
structure Cursor (σ : Type) where
  offset : ℕ
  expectedSequence : ℕ
  recordCount : ℕ
  values : σ

def Cursor.result {σ : Type} (c : Cursor σ) (fileBytes : ℕ) (tail : Option TruncatedTail) :
    ScanResult σ :=
  ⟨fileBytes, c.offset, c.recordCount, c.expectedSequence, tail, c.values⟩

namespace RecordFormat

variable {σ : Type}

/-- The mutation that a complete record holds. -/
def Metadata.mutation (metadata : Metadata) (payload : Bytes) : Mutation where
  sequence := metadata.sequence
  key := payload.take metadata.keyLen
  value :=
    match metadata.kind with
    | .put => some (payload.drop metadata.keyLen)
    | .delete => none

/-- The loop of `scan_file` over the bytes `rest` from the offset of the cursor to the end of the
file. Every record takes bytes away, so their number bounds the rounds. -/
def scanRecords (fmt : RecordFormat) (apply : σ → Mutation → Except DbError σ) (fileBytes : ℕ) :
    ℕ → Bytes → Cursor σ → Except DbError (ScanResult σ)
  | 0, _, c => .ok (c.result fileBytes none)
  | fuel + 1, rest, c =>
    if rest = [] then .ok (c.result fileBytes none)
    else if rest.length < recordHeaderLen then do
      fmt.validatePartialHeader rest c.offset c.expectedSequence
      .ok (c.result fileBytes (some ⟨c.offset, rest.length, none⟩))
    else do
      let header := rest.take recordHeaderLen
      let metadata ← fmt.parseRecordHeader header c.offset c.expectedSequence
      let recordEnd ← checkedAdd c.offset metadata.totalLen
        (.corruption c.offset fmt.recordEndOverflow)
      if fileBytes < recordEnd then
        .ok (c.result fileBytes (some ⟨c.offset, rest.length, some metadata.totalLen⟩))
      else do
        let payload := slice rest recordHeaderLen (metadata.keyLen + metadata.valueLen)
        let actualRecordCrc := crc32 (header.take 28 ++ payload)
        failWhen (actualRecordCrc ≠ metadata.expectedRecordCrc)
          (.corruption (c.offset + fmt.recordChecksumOffset)
            (fmt.recordChecksum metadata.expectedRecordCrc actualRecordCrc))
        let values ← apply c.values (metadata.mutation payload)
        let expectedSequence ← checkedSucc metadata.sequence
          (.corruption recordEnd fmt.sequenceExhausted)
        let recordCount ← checkedSucc c.recordCount (.corruption recordEnd fmt.countExhausted)
        fmt.scanRecords apply fileBytes fuel (rest.drop metadata.totalLen)
          ⟨recordEnd, expectedSequence, recordCount, values⟩

/-! ### Records that the encoder wrote -/

variable {fmt : RecordFormat} {apply : σ → Mutation → Except DbError σ} {m : Mutation}
  {ms : List Mutation} {c : Cursor σ} {rest tail : Bytes} {fileBytes fuel first offset : ℕ}
  {r : ScanResult σ} {v : σ}

def mutationBytes (fmt : RecordFormat) (m : Mutation) : Bytes :=
  fmt.recordBytes m.kind m.sequence m.key m.valueBytes

def recordsBytes (fmt : RecordFormat) (ms : List Mutation) : Bytes := ms.flatMap fmt.mutationBytes

@[simp] theorem recordsBytes_nil : fmt.recordsBytes [] = [] := rfl

@[simp] theorem recordsBytes_cons :
    fmt.recordsBytes (m :: ms) = fmt.mutationBytes m ++ fmt.recordsBytes ms := rfl

theorem recordsBytes_append {ms' : List Mutation} :
    fmt.recordsBytes (ms ++ ms') = fmt.recordsBytes ms ++ fmt.recordsBytes ms' :=
  List.flatMap_append

/-- The limits on keys and values. -/
def Writable (m : Mutation) : Prop := Admissible m.kind m.key.length m.valueBytes.length

instance : Decidable (Writable m) := inferInstanceAs (Decidable (Admissible ..))

theorem writable_iff :
    Writable m ↔ m.key.length ≤ maxKeyBytes ∧ m.valueBytes.length ≤ maxValueBytes := by
  unfold Writable Admissible Mutation.kind Mutation.valueBytes
  cases m.value <;> simp

/-- Sequence numbers that count up from `first`. -/
def Consecutive : ℕ → List Mutation → Prop
  | _, [] => True
  | first, m :: ms => m.sequence = first ∧ Consecutive (first + 1) ms

theorem consecutive_append {ms' : List Mutation} :
    Consecutive first (ms ++ ms') ↔
      Consecutive first ms ∧ Consecutive (first + ms.length) ms' := by
  induction ms generalizing first with
  | nil => simp [Consecutive]
  | cons m ms ih =>
    rw [List.cons_append, Consecutive, ih, Consecutive, and_assoc, List.length_cons, Nat.add_assoc,
      Nat.add_comm 1]

/-- An incomplete last record that the scan lets pass, with the length that its header declares. -/
inductive Torn (fmt : RecordFormat) (offset sequence : ℕ) (tail : Bytes) : Option ℕ → Prop
  | header (hne : tail ≠ []) (hlen : tail.length < recordHeaderLen)
      (hvalid : fmt.validatePartialHeader tail offset sequence = .ok ()) : Torn fmt offset sequence tail none
  | payload (metadata : Metadata) (hlen : recordHeaderLen ≤ tail.length)
      (hparse : fmt.parseRecordHeader (tail.take recordHeaderLen) offset sequence = .ok metadata)
      (hend : offset + metadata.totalLen < u64Limit) (hshort : tail.length < metadata.totalLen) :
      Torn fmt offset sequence tail (some metadata.totalLen)

theorem mutationBytes_length :
    (fmt.mutationBytes m).length = 32 + (m.key.length + m.valueBytes.length) :=
  recordBytes_length

/-- The header that the encoder writes, as the reader takes it apart. -/
theorem parse_mutationBytes (hm : Writable m) (hseq : m.sequence < u64Limit) :
    fmt.parseRecordHeader ((fmt.mutationBytes m ++ rest).take recordHeaderLen) offset m.sequence =
      .ok { kind := m.kind
            sequence := m.sequence
            keyLen := m.key.length
            valueLen := m.valueBytes.length
            totalLen := (fmt.mutationBytes m).length
            expectedRecordCrc := crc32 (fmt.headerPrefix m.kind m.sequence m.key.length
              m.valueBytes.length ++ (m.key ++ m.valueBytes)) } := by
  have hlen : ((fmt.mutationBytes m ++ rest).take recordHeaderLen).length = 32 := by
    rw [List.length_take, List.length_append, mutationBytes_length, recordHeaderLen]
    omega
  rw [parseRecordHeader_eq_ok hlen]
  refine ⟨hm, ?_, ?_, rfl, mutationBytes_length, ?_⟩
  · rw [u64Limit_eq] at hseq
    omega
  · rw [List.take_take, mutationBytes, recordBytes, List.append_assoc]
    exact slice_append_self headerPrefix_length
  · rw [recordHeaderLen, slice_take (by omega), mutationBytes, recordBytes]
    rw [List.append_assoc, List.append_assoc, show 28 = 28 + 0 from rfl,
      slice_append_right headerPrefix_length, slice_append_self (leBytes_length ..),
      leNat_leBytes (crc32_lt _)]

/-- The key and the value behind the header. -/
theorem slice_payload :
    slice (fmt.mutationBytes m ++ rest) recordHeaderLen (m.key.length + m.valueBytes.length) =
      m.key ++ m.valueBytes := by
  have hhead : (fmt.headerPrefix m.kind m.sequence m.key.length m.valueBytes.length ++
      leBytes 4 (crc32 (fmt.headerPrefix m.kind m.sequence m.key.length m.valueBytes.length ++
        (m.key ++ m.valueBytes)))).length = 32 := by simp
  rw [mutationBytes, recordBytes, ← List.append_assoc, List.append_assoc, show recordHeaderLen = 32 + 0 from rfl,
    slice_append_right hhead, slice_append_self (List.length_append ..)]

/-- **One round over a record that the encoder wrote.** -/
theorem scanRecords_mutationBytes (hm : Writable m) (hseq : m.sequence = c.expectedSequence)
    (hlt : m.sequence < u64Limit) (hfile : fileBytes = c.offset + (fmt.mutationBytes m ++ rest).length)
    (hend : c.offset + (fmt.mutationBytes m).length < u64Limit) :
    fmt.scanRecords apply fileBytes (fuel + 1) (fmt.mutationBytes m ++ rest) c = (do
      let values ← apply c.values m
      let expectedSequence ← checkedSucc m.sequence
        (.corruption (c.offset + (fmt.mutationBytes m).length) fmt.sequenceExhausted)
      let recordCount ← checkedSucc c.recordCount
        (.corruption (c.offset + (fmt.mutationBytes m).length) fmt.countExhausted)
      fmt.scanRecords apply fileBytes fuel rest
        ⟨c.offset + (fmt.mutationBytes m).length, expectedSequence, recordCount, values⟩) := by
  have hlen := @mutationBytes_length fmt m
  have hne : fmt.mutationBytes m ++ rest ≠ [] := by
    intro h
    have := congrArg List.length h
    rw [List.length_append, hlen] at this
    simp at this
  have hlong : ¬ (fmt.mutationBytes m ++ rest).length < recordHeaderLen := by
    rw [List.length_append, hlen, recordHeaderLen]
    omega
  have hwhole : ¬ fileBytes < c.offset + (fmt.mutationBytes m).length := by
    rw [hfile, List.length_append]
    omega
  have hmutation : (Metadata.mutation ⟨m.kind, m.sequence, m.key.length, m.valueBytes.length,
      (fmt.mutationBytes m).length, crc32 (fmt.headerPrefix m.kind m.sequence m.key.length
        m.valueBytes.length ++ (m.key ++ m.valueBytes))⟩ (m.key ++ m.valueBytes)) = m := by
    rcases m with ⟨sequence, key, _ | value⟩ <;>
      simp [Metadata.mutation, Mutation.kind, Mutation.valueBytes]
  have hheader : ((fmt.mutationBytes m ++ rest).take recordHeaderLen).take 28 =
      fmt.headerPrefix m.kind m.sequence m.key.length m.valueBytes.length := by
    rw [List.take_take, mutationBytes, recordBytes, List.append_assoc]
    exact slice_append_self headerPrefix_length
  rw [scanRecords, if_neg hne, if_neg hlong, ← hseq]
  dsimp only
  rw [parse_mutationBytes hm hlt]
  simp only [Checked.ok_bind]
  rw [checkedAdd_eq_ok.2 ⟨hend, rfl⟩]
  simp only [Checked.ok_bind]
  rw [if_neg hwhole, slice_payload, hheader, hmutation, (failWhen_eq_ok (u := ())).2 (by simp)]
  simp only [Checked.ok_bind]
  rw [List.drop_left]

/-- **The loop over records that the encoder wrote**, up to a tail. -/
theorem scanRecords_append (hms : ∀ m ∈ ms, Writable m) (hseq : Consecutive c.expectedSequence ms)
    (hlt : c.expectedSequence + ms.length < u64Limit)
    (hcount : c.recordCount + ms.length < u64Limit)
    (hfile : fileBytes = c.offset + (fmt.recordsBytes ms ++ tail).length)
    (hend : c.offset + (fmt.recordsBytes ms).length < u64Limit) :
    fmt.scanRecords apply fileBytes (fuel + ms.length) (fmt.recordsBytes ms ++ tail) c =
      (ms.foldlM apply c.values >>= fun v => fmt.scanRecords apply fileBytes fuel tail
        ⟨c.offset + (fmt.recordsBytes ms).length, c.expectedSequence + ms.length,
          c.recordCount + ms.length, v⟩) := by
  induction ms generalizing c with
  | nil => rfl
  | cons m ms ih =>
    obtain ⟨hseq1, hseq2⟩ := hseq
    rw [recordsBytes_cons, List.append_assoc, List.length_append] at hfile
    rw [recordsBytes_cons, List.length_append] at hend
    rw [List.length_cons] at hlt hcount
    rw [recordsBytes_cons, List.append_assoc, List.length_cons, ← Nat.add_assoc,
      scanRecords_mutationBytes (hms m (by simp)) hseq1 (by omega)
        (by rw [hfile, @List.length_append _ (fmt.mutationBytes m)]) (by omega), List.foldlM_cons, bind_assoc]
    refine bind_congr fun v => ?_
    rw [checkedSucc_eq_ok.2 ⟨by omega, rfl⟩, checkedSucc_eq_ok.2 ⟨by omega, rfl⟩]
    simp only [Checked.ok_bind]
    rw [ih (fun x hx => hms x (by simp [hx])) (by rw [hseq1]; exact hseq2) (by rw [hseq1]; simp only; omega)
      (by simp only; omega) (by simp only; omega) (by simp only; omega)]
    refine bind_congr fun v => ?_
    simp only [List.length_append, hseq1, Nat.add_assoc, Nat.add_comm 1]

/-- A complete header with a payload of the declared size and checksum is a record. -/
theorem exists_mutation {metadata : Metadata} (hlen : recordHeaderLen ≤ rest.length)
    (hparse : fmt.parseRecordHeader (rest.take recordHeaderLen) offset first = .ok metadata)
    (hwhole : metadata.totalLen ≤ rest.length)
    (hcrc : crc32 ((rest.take recordHeaderLen).take 28 ++
      slice rest recordHeaderLen (metadata.keyLen + metadata.valueLen)) =
        metadata.expectedRecordCrc) :
    ∃ m rest', rest = fmt.mutationBytes m ++ rest' ∧ Writable m ∧ m.sequence = first ∧
      first < u64Limit ∧ (fmt.mutationBytes m).length = metadata.totalLen := by
  have hheader : (rest.take recordHeaderLen).length = 32 := by
    rw [List.length_take, recordHeaderLen] at *
    omega
  obtain ⟨hadm, hfirst, h28, hseq, htotal, hexpected⟩ := (parseRecordHeader_eq_ok hheader).1 hparse
  rw [recordHeaderLen, List.take_take, show min 28 32 = 28 from rfl] at h28 hcrc
  rw [recordHeaderLen, slice_take (by omega)] at hexpected
  rw [htotal] at hwhole
  set payload := slice rest 32 (metadata.keyLen + metadata.valueLen) with hpayload
  have hpayloadLen : payload.length = metadata.keyLen + metadata.valueLen := slice_length (by omega)
  -- A deletion declares no value, so the key is all of its payload.
  obtain ⟨m, hkind, hsequence, hkey, hvalue⟩ := Mutation.exists_fields metadata.kind first
    (payload.take metadata.keyLen) (payload.drop metadata.keyLen) fun hk => by
      have hnone := hadm.2.2 hk
      exact List.drop_eq_nil_of_le (by omega)
  have hkeyLen : m.key.length = metadata.keyLen := by
    rw [hkey, List.length_take]
    omega
  have hvalueLen : m.valueBytes.length = metadata.valueLen := by
    rw [hvalue, List.length_drop]
    omega
  have hbytes : fmt.mutationBytes m = rest.take (32 + (metadata.keyLen + metadata.valueLen)) := by
    rw [mutationBytes, recordBytes, hkind, hsequence, hkeyLen, hvalueLen, hkey, hvalue,
      List.take_append_drop, ← h28, hcrc, hexpected, ← slice_eq_leBytes (by omega), hpayload,
      slice_append_slice (i := 28), take_append_slice, ← Nat.add_assoc]
  refine ⟨m, rest.drop (32 + (metadata.keyLen + metadata.valueLen)), ?_, ?_, hsequence, ?_, ?_⟩
  · rw [hbytes, List.take_append_drop]
  · rw [Writable, hkind, hkeyLen, hvalueLen]
    exact hadm
  · rw [u64Limit_eq]
    omega
  · rw [mutationBytes_length, hkeyLen, hvalueLen, htotal]

/-- One successful round over bytes that are left. -/
theorem scanRecords_succ_eq_ok (hfile : fileBytes = c.offset + rest.length) (hne : rest ≠ [])
    (h : fmt.scanRecords apply fileBytes (fuel + 1) rest c = .ok r) :
    (∃ required, fmt.Torn c.offset c.expectedSequence rest required ∧
      r = c.result fileBytes (some ⟨c.offset, rest.length, required⟩)) ∨
    ∃ m rest', rest = fmt.mutationBytes m ++ rest' ∧ Writable m ∧
      m.sequence = c.expectedSequence ∧ c.expectedSequence < u64Limit ∧
      c.offset + (fmt.mutationBytes m).length < u64Limit := by
  rw [scanRecords, if_neg hne] at h
  by_cases hlen : rest.length < recordHeaderLen
  · rw [if_pos hlen, Checked.bind_eq_ok] at h
    obtain ⟨_, hvalid, hr⟩ := h
    exact .inl ⟨none, .header hne hlen hvalid, (Except.ok.inj hr).symm⟩
  · rw [if_neg hlen] at h
    dsimp only at h
    obtain ⟨metadata, hparse, h⟩ := Checked.bind_eq_ok.1 h
    obtain ⟨recordEnd, hrecordEnd, h⟩ := Checked.bind_eq_ok.1 h
    obtain ⟨hend, rfl⟩ := checkedAdd_eq_ok.1 hrecordEnd
    by_cases hshort : fileBytes < c.offset + metadata.totalLen
    · rw [if_pos hshort] at h
      exact .inl ⟨some metadata.totalLen, .payload metadata (not_lt.1 hlen) hparse hend (by omega),
        (Except.ok.inj h).symm⟩
    · rw [if_neg hshort] at h
      obtain ⟨_, hcrc, -⟩ := Checked.bind_eq_ok.1 h
      rw [failWhen_eq_ok, not_not] at hcrc
      obtain ⟨m, rest', hrest, hm, hseq, hfirst, htotal⟩ :=
        exists_mutation (not_lt.1 hlen) hparse (by omega) hcrc
      exact .inr ⟨m, rest', hrest, hm, hseq, hfirst, by rw [htotal]; exact hend⟩

/-- A successful scan from `c` has read the records `ms` and a tail. -/
structure Replayed (fmt : RecordFormat) (apply : σ → Mutation → Except DbError σ) (c : Cursor σ)
    (rest : Bytes) (r : ScanResult σ) (ms : List Mutation) (tail : Bytes) : Prop where
  rest_eq : rest = fmt.recordsBytes ms ++ tail
  writable : ∀ m ∈ ms, Writable m
  consecutive : Consecutive c.expectedSequence ms
  sequence_lt : ms ≠ [] → c.expectedSequence + ms.length < u64Limit
  length_lt : ms ≠ [] → c.offset + (fmt.recordsBytes ms).length < u64Limit
  values : ms.foldlM apply c.values = .ok r.values
  fileBytes : r.fileBytes = c.offset + rest.length
  validBytes : r.validBytes = c.offset + (fmt.recordsBytes ms).length
  recordCount : r.recordCount = c.recordCount + ms.length
  nextSequence : r.nextSequence = c.expectedSequence + ms.length
  tail_ok : r.recoverableTail = none ∧ tail = [] ∨
    ∃ required, fmt.Torn r.validBytes r.nextSequence tail required ∧
      r.recoverableTail = some ⟨r.validBytes, tail.length, required⟩

theorem Replayed.done (hr : r = c.result c.offset none) : Replayed fmt apply c [] r [] [] := by
  subst hr
  exact ⟨rfl, by simp, trivial, by simp, by simp, rfl, rfl, rfl, rfl, rfl, .inl ⟨rfl, rfl⟩⟩

theorem Replayed.torn {required : Option ℕ} (h : fmt.Torn c.offset c.expectedSequence tail required)
    (hr : r = c.result (c.offset + tail.length) (some ⟨c.offset, tail.length, required⟩)) :
    Replayed fmt apply c tail r [] tail := by
  subst hr
  exact ⟨rfl, by simp, trivial, by simp, by simp, rfl, rfl, rfl, rfl, rfl, .inr ⟨required, h, rfl⟩⟩

theorem Replayed.step (hm : Writable m) (hseq : m.sequence = c.expectedSequence)
    (hlt : c.expectedSequence + 1 < u64Limit)
    (hend : c.offset + (fmt.mutationBytes m).length < u64Limit) (hv : apply c.values m = .ok v)
    (h : Replayed fmt apply ⟨c.offset + (fmt.mutationBytes m).length, c.expectedSequence + 1,
      c.recordCount + 1, v⟩ rest r ms tail) :
    Replayed fmt apply c (fmt.mutationBytes m ++ rest) r (m :: ms) tail where
  rest_eq := by rw [h.rest_eq, recordsBytes_cons, List.append_assoc]
  writable := List.forall_mem_cons.2 ⟨hm, h.writable⟩
  consecutive := ⟨hseq, h.consecutive⟩
  sequence_lt := by
    intro _
    by_cases hms : ms = []
    · rwa [hms]
    · have := h.sequence_lt hms
      rw [List.length_cons]
      simp only at this
      omega
  length_lt := by
    intro _
    by_cases hms : ms = []
    · rw [hms]
      simpa using hend
    · have := h.length_lt hms
      rw [recordsBytes_cons, List.length_append]
      simp only at this
      omega
  values := by
    rw [List.foldlM_cons, hv]
    exact h.values
  fileBytes := by
    have := h.fileBytes
    rw [List.length_append]
    simp only at this
    omega
  validBytes := by
    have := h.validBytes
    rw [recordsBytes_cons, List.length_append]
    simp only at this
    omega
  recordCount := by
    have := h.recordCount
    rw [List.length_cons]
    simp only at this
    omega
  nextSequence := by
    have := h.nextSequence
    rw [List.length_cons]
    simp only at this
    omega
  tail_ok := h.tail_ok

/-- **What a successful scan has read**: records that the encoder writes, and an incomplete tail. -/
theorem scanRecords_eq_ok (hfuel : rest.length ≤ fuel) (hfile : fileBytes = c.offset + rest.length)
    (h : fmt.scanRecords apply fileBytes fuel rest c = .ok r) :
    ∃ ms tail, Replayed fmt apply c rest r ms tail := by
  induction fuel generalizing c rest with
  | zero =>
    obtain rfl : rest = [] := List.length_eq_zero_iff.1 (by omega)
    exact ⟨[], [], .done (by rw [← Except.ok.inj h, hfile]; rfl)⟩
  | succ fuel ih =>
    by_cases hne : rest = []
    · subst hne
      rw [scanRecords, if_pos rfl] at h
      exact ⟨[], [], .done (by rw [← Except.ok.inj h, hfile]; rfl)⟩
    rcases scanRecords_succ_eq_ok hfile hne h with
      ⟨required, htorn, hr⟩ | ⟨m, rest', rfl, hm, hseq, hfirst, hend⟩
    · exact ⟨[], rest, .torn htorn (hfile ▸ hr)⟩
    · have hpos := @mutationBytes_length fmt m
      rw [List.length_append] at hfuel
      rw [scanRecords_mutationBytes hm hseq (by omega) hfile hend] at h
      obtain ⟨v, hv, h⟩ := Checked.bind_eq_ok.1 h
      obtain ⟨next, hnext, h⟩ := Checked.bind_eq_ok.1 h
      obtain ⟨count, hcount, h⟩ := Checked.bind_eq_ok.1 h
      obtain ⟨hnextLt, rfl⟩ := checkedSucc_eq_ok.1 hnext
      obtain ⟨-, rfl⟩ := checkedSucc_eq_ok.1 hcount
      rw [List.length_append] at hfile
      rw [hseq] at h hnextLt
      obtain ⟨ms, tail, hread⟩ := ih (by omega) (by simp only; omega) h
      exact ⟨m :: ms, tail, hread.step hm hseq hnextLt hend hv⟩

end RecordFormat
end DbLab.Record
