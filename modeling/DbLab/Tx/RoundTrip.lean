import DbLab.Tx.Codec

/-!
# Mutation transactions are read back as they were written

The encoder writes `record`, and only within the limits (`encodeTransaction_eq_ok`); the decoder
accepts `record` of a valid batch and nothing else (`decodeTransaction_eq_ok`). The three programs
agree.
-/

namespace DbLab.Tx.Program

variable {program : Program} {bytes key value input rest : Bytes} {txId kind n k : ℕ}
  {mutation : Mutation} {mutations : List Mutation}

@[simp] theorem magic_length : program.constants.magic.length = 8 := by cases program <;> rfl
@[simp] theorem version_eq : program.constants.version = 2 := by cases program <;> rfl
@[simp] theorem headerLen_eq : program.constants.headerLen = 24 := by cases program <;> rfl
@[simp] theorem mutationHeaderLen_eq : program.constants.mutationHeaderLen = 12 := by
  cases program <;> rfl
@[simp] theorem trailerLen_eq : program.constants.trailerLen = 4 := by cases program <;> rfl
@[simp] theorem maxBatchMutations_eq : program.constants.maxBatchMutations = 1024 := by
  cases program <;> rfl
@[simp] theorem kindPut_eq : program.constants.kindPut = 1 := by cases program <;> rfl
@[simp] theorem kindDelete_eq : program.constants.kindDelete = 2 := by cases program <;> rfl

@[simp] theorem reservedBytes_length : reservedBytes.length = 3 := by simp [reservedBytes]

/-! ### Mutations -/

/-- A mutation within the limits of keys and values. -/
def Valid : Mutation → Prop
  | .put key value => key.length ≤ maxKeyBytes ∧ value.length ≤ maxValueBytes
  | .delete key => key.length ≤ maxKeyBytes

@[simp] theorem validateMutation_eq_ok {u : Unit} : validateMutation mutation = .ok u ↔ Valid mutation := by
  cases mutation <;> simp [validateMutation, Valid]

theorem validateBatch_eq_ok :
    program.validateBatch mutations = .ok () ↔
      mutations ≠ [] ∧ mutations.length ≤ 1024 ∧ ∀ mutation ∈ mutations, Valid mutation := by
  simp only [validateBatch, Checked.bind_eq_ok, failWhen_eq_ok, exists_const, not_lt,
    maxBatchMutations_eq, Checked.forM_eq_ok, validateMutation_eq_ok]

/-- The bytes of a mutation. -/
def mutationBytes : Mutation → Bytes
  | .put key value => mutationHeader 1 key.length value.length ++ (key ++ value)
  | .delete key => mutationHeader 2 key.length 0 ++ key

@[simp] theorem mutationHeader_length : (mutationHeader kind n k).length = 12 := by
  simp [mutationHeader]

theorem byteAt_mutationHeader (h : kind < 256) : byteAt (mutationHeader kind n k) 0 = kind := by
  rw [byteAt, mutationHeader, slice_append_self (leBytes_length ..), leNat_leBytes (by omega)]

theorem slice_mutationHeader_reserved : slice (mutationHeader kind n k) 1 3 = reservedBytes := by
  simp [mutationHeader, slice_skip, slice_append_self]

theorem slice_mutationHeader_key : slice (mutationHeader kind n k) 4 4 = leBytes 4 n := by
  simp [mutationHeader, slice_skip, slice_append_self]

theorem slice_mutationHeader_value : slice (mutationHeader kind n k) 8 4 = leBytes 4 k := by
  simp [mutationHeader, slice_skip, slice_self]

/-- Twelve bytes with the reserved ones zero are the header of their fields. -/
theorem eq_mutationHeader (hlen : bytes.length = 12) (hreserved : slice bytes 1 3 = reservedBytes) :
    bytes = mutationHeader (byteAt bytes 0) (leNat (slice bytes 4 4)) (leNat (slice bytes 8 4)) := by
  rw [mutationHeader, byteAt, ← slice_eq_leBytes (by omega), ← slice_eq_leBytes (by omega),
    ← slice_eq_leBytes (by omega), ← hreserved, slice_append_slice, slice_append_slice,
    slice_append_slice]
  exact (slice_self hlen).symm

theorem encodeMutation_eq_ok :
    program.encodeMutation mutation = .ok bytes ↔
      bytes = mutationBytes mutation ∧ match mutation with
        | .put key value => key.length ≤ u32Max ∧ value.length ≤ u32Max
        | .delete key => key.length ≤ u32Max := by
  cases mutation with
  | put key value =>
    simp only [encodeMutation, mutationBytes, Checked.bind_eq_ok, failWhen_eq_ok, exists_const, not_lt,
      kindPut_eq, Except.ok.injEq]
    tauto
  | delete key =>
    simp only [encodeMutation, mutationBytes, Checked.bind_eq_ok, failWhen_eq_ok, exists_const, not_lt,
      kindDelete_eq, Except.ok.injEq, List.append_nil, List.length_nil, Nat.zero_le, true_and]
    tauto

theorem mutationOf_eq_ok :
    program.mutationOf kind key value = .ok mutation ↔ Valid mutation ∧
      ((kind = 1 ∧ mutation = .put key value) ∨ (kind = 2 ∧ value = [] ∧ mutation = .delete key)) := by
  unfold mutationOf
  simp only [kindPut_eq, kindDelete_eq]
  split_ifs with hput hdelete
  · subst hput
    simp only [Checked.bind_eq_ok, Checked.mapError_eq_ok, validateKeyValue_eq_ok, exists_const, Except.ok.injEq]
    constructor
    · rintro ⟨hvalid, rfl⟩
      exact ⟨hvalid, .inl ⟨trivial, rfl⟩⟩
    · rintro ⟨hvalid, ⟨-, rfl⟩ | ⟨hkind, -⟩⟩
      · exact ⟨hvalid, rfl⟩
      · omega
  · subst hdelete
    simp only [Checked.bind_eq_ok, Checked.mapError_eq_ok, validateKey_eq_ok, failWhen_eq_ok, exists_const,
      Except.ok.injEq, not_not, List.length_eq_zero_iff]
    constructor
    · rintro ⟨hnil, hvalid, rfl⟩
      exact ⟨hvalid, .inr ⟨trivial, hnil, rfl⟩⟩
    · rintro ⟨hvalid, ⟨hkind, -⟩ | ⟨-, hnil, rfl⟩⟩
      · omega
      · exact ⟨hnil, hvalid, rfl⟩
  · simp [hput, hdelete]

/-- A valid mutation is taken from the front of any bytes that start with it. -/
theorem reads_decodeMutation (h : Valid mutation) :
    Reads program.decodeMutation (mutationBytes mutation) mutation := by
  -- What is common to the two kinds: the header, and then the payload that it announces.
  have hread : ∀ {kind : ℕ} {key value : Bytes}, kind < 256 → key.length < 256 ^ 4 → value.length < 256 ^ 4 →
      program.mutationOf kind key value = .ok mutation →
      Reads program.decodeMutation (mutationHeader kind key.length value.length ++ (key ++ value)) mutation := by
    intro kind key value hkind hkey hvalue hof
    refine Reads.bind (reads_takeFront (by simp)) ?_
    refine @Reads.bind _ _ _ _ _ [] (key ++ value) () _ _ (reads_checked ?_) ?_
    · rw [failWhen_eq_ok, slice_mutationHeader_reserved]
      simp
    · rw [slice_mutationHeader_key, slice_mutationHeader_value, leNat_leBytes hkey, leNat_leBytes hvalue,
        byteAt_mutationHeader hkind]
      have hrest : Reads (do
          let payload ← takeFront (corruption "transaction mutation payload is truncated")
            (key.length + value.length)
          checked (program.mutationOf kind (payload.take key.length) (payload.drop key.length)))
          ((key ++ value) ++ []) mutation := by
        refine Reads.bind (reads_takeFront (by simp)) (reads_checked ?_)
        rw [List.take_left, List.drop_left]
        exact hof
      rw [List.append_nil] at hrest
      exact hrest
  have hmax : maxKeyBytes = 4096 ∧ maxValueBytes = 1048576 := ⟨rfl, rfl⟩
  cases mutation with
  | put key value =>
    obtain ⟨hkey, hvalue⟩ := h
    exact hread (by omega) (by omega) (by omega) (mutationOf_eq_ok.2 ⟨⟨hkey, hvalue⟩, .inl ⟨rfl, rfl⟩⟩)
  | delete key =>
    have hdelete := @hread 2 key [] (by omega) (by rw [Valid] at h; omega) (by simp)
      (mutationOf_eq_ok.2 ⟨h, .inr ⟨rfl, rfl, rfl⟩⟩)
    rwa [List.append_nil] at hdelete

/-- A mutation that was taken is valid, and its bytes were in front. -/
theorem decodeMutation_run_ok (h : program.decodeMutation.run input = .ok (mutation, rest)) :
    Valid mutation ∧ input = mutationBytes mutation ++ rest := by
  replace h := bind_run_ok.1 h
  obtain ⟨fields, middle, hfields, h⟩ := h
  obtain ⟨hlen, rfl⟩ := takeFront_run_ok.1 hfields
  replace h := bind_run_ok.1 h
  obtain ⟨_, middle', hcheck, h⟩ := h
  obtain ⟨hreserved, rfl⟩ := checked_run_ok.1 hcheck
  replace h := bind_run_ok.1 h
  obtain ⟨payload, rest', hpayload, h⟩ := h
  obtain ⟨hpayloadLen, rfl⟩ := takeFront_run_ok.1 hpayload
  obtain ⟨hof, rfl⟩ := checked_run_ok.1 h
  rw [failWhen_eq_ok, not_not] at hreserved
  rw [mutationHeaderLen_eq] at hlen
  have hheader := eq_mutationHeader hlen hreserved
  have hsplit := List.take_append_drop (leNat (slice fields 4 4)) payload
  have hkeyLen : (payload.take (leNat (slice fields 4 4))).length = leNat (slice fields 4 4) := by
    rw [List.length_take]
    omega
  have hvalueLen : (payload.drop (leNat (slice fields 4 4))).length = leNat (slice fields 8 4) := by
    rw [List.length_drop]
    omega
  obtain ⟨hvalid, ⟨hkind, rfl⟩ | ⟨hkind, hnil, rfl⟩⟩ := mutationOf_eq_ok.1 hof
  · refine ⟨hvalid, ?_⟩
    rw [mutationBytes, hkeyLen, hvalueLen, ← hkind, ← hheader, hsplit, List.append_assoc]
  · refine ⟨hvalid, ?_⟩
    rw [hnil, List.length_nil] at hvalueLen
    rw [hnil, List.append_nil] at hsplit
    rw [mutationBytes, hkeyLen, hvalueLen, ← hkind, ← hheader, hsplit, List.append_assoc]

/-! ### Encoded transactions -/

/-- The bytes in front of the checksum. -/
def body (program : Program) (txId : ℕ) (mutations : List Mutation) : Bytes :=
  program.header txId mutations.length ++ mutations.flatMap mutationBytes

/-- The record of a transaction. -/
def record (program : Program) (txId : ℕ) (mutations : List Mutation) : Bytes :=
  program.body txId mutations ++ leBytes 4 (crc32 (program.body txId mutations))

@[simp] theorem header_length : (program.header txId n).length = 24 := by simp [header]

theorem record_length : (program.record txId mutations).length = (program.body txId mutations).length + 4 := by
  simp [record]

/-- The lengths of a mutation that fits into a value fit into their fields. -/
theorem appendMutation_eq_ok {start out : Bytes} :
    program.appendMutation start mutation = .ok out ↔
      out = start ++ mutationBytes mutation ∧ out.length + 4 ≤ maxValueBytes := by
  have hmax : maxValueBytes = 1048576 ∧ u32Max = 4294967295 := ⟨rfl, rfl⟩
  simp only [appendMutation, Checked.bind_eq_ok, encodeMutation_eq_ok, failWhen_eq_ok, not_lt,
    trailerLen_eq, Except.ok.injEq, exists_const]
  constructor
  · rintro ⟨_, ⟨rfl, -⟩, hlimit, rfl⟩
    exact ⟨rfl, hlimit⟩
  · rintro ⟨rfl, hlimit⟩
    refine ⟨_, ⟨rfl, ?_⟩, hlimit, rfl⟩
    cases mutation with
    | put key value =>
      simp [mutationBytes] at hlimit ⊢
      omega
    | delete key =>
      simp [mutationBytes] at hlimit ⊢
      omega

/-- The loop checks the limit after every mutation, and the last check is the strongest. -/
theorem foldlM_appendMutation {start out : Bytes} :
    mutations.foldlM program.appendMutation start = .ok out ↔
      out = start ++ mutations.flatMap mutationBytes ∧
        (mutations ≠ [] → out.length + 4 ≤ maxValueBytes) := by
  induction mutations generalizing start with
  | nil => simp [eq_comm]
  | cons mutation mutations ih =>
    simp only [List.foldlM_cons, Checked.bind_eq_ok, appendMutation_eq_ok, ih, List.flatMap_cons]
    constructor
    · rintro ⟨_, ⟨rfl, hfirst⟩, rfl, hrest⟩
      refine ⟨by simp, fun _ => ?_⟩
      by_cases hnil : mutations = []
      · subst hnil
        simpa using hfirst
      · exact hrest hnil
    · rintro ⟨rfl, hlimit⟩
      replace hlimit := hlimit (by simp)
      refine ⟨_, ⟨rfl, ?_⟩, by simp, fun _ => hlimit⟩
      simp at hlimit ⊢
      omega

/-- **What the encoder writes**, and when. -/
theorem encodeTransaction_eq_ok :
    program.encodeTransaction txId mutations = .ok bytes ↔
      txId ≠ 0 ∧ mutations.length ≤ u32Max ∧ bytes.length ≤ maxValueBytes ∧
        bytes = program.record txId mutations := by
  simp only [encodeTransaction, Checked.bind_eq_ok, failWhen_eq_ok, exists_const, not_lt,
    foldlM_appendMutation, Except.ok.injEq, Ne]
  constructor
  · rintro ⟨hid, hcount, _, ⟨rfl, hlimit⟩, rfl⟩
    refine ⟨hid, hcount, ?_, rfl⟩
    by_cases hnil : mutations = []
    · subst hnil
      have hmax : maxValueBytes = 1048576 := rfl
      simp
      omega
    · have := hlimit hnil
      simp at this ⊢
      omega
  · rintro ⟨hid, hcount, hlimit, rfl⟩
    refine ⟨hid, hcount, _, ⟨rfl, fun _ => ?_⟩, rfl⟩
    rwa [record_length] at hlimit

/-! ### Decoded transactions -/

theorem slice_header_magic : slice (program.header txId n) 0 8 = program.constants.magic := by
  simp [header, slice_append_self]

theorem slice_header_version : slice (program.header txId n) 8 2 = leBytes 2 2 := by
  simp [header, slice_skip, slice_append_self]

theorem slice_header_reserved : slice (program.header txId n) 10 2 = leBytes 2 0 := by
  simp [header, slice_skip, slice_append_self]

theorem slice_header_txId : slice (program.header txId n) 12 8 = leBytes 8 txId := by
  simp [header, slice_skip, slice_append_self]

theorem slice_header_count : slice (program.header txId n) 20 4 = leBytes 4 n := by
  simp [header, slice_skip, slice_self]

/-- The first 24 bytes of a record that is accepted. -/
theorem take_eq_header (hlen : 28 ≤ bytes.length) (hmagic : slice bytes 0 8 = program.constants.magic)
    (hversion : leNat (slice bytes 8 2) = 2) (hreserved : leNat (slice bytes 10 2) = 0)
    (hid : leNat (slice bytes 12 8) = txId) (hcount : leNat (slice bytes 20 4) = n) :
    bytes.take 24 = program.header txId n := by
  rw [← slice_eq_leBytes_iff (by omega) (by omega)] at hversion hreserved
  rw [header, version_eq, ← hmagic, ← hversion, ← hreserved, ← hid, ← hcount,
    ← slice_eq_leBytes (by omega), ← slice_eq_leBytes (by omega), slice_append_slice,
    slice_append_slice, slice_append_slice, slice_append_slice]
  rfl

/-- **What the decoder accepts**: the record of a valid batch under the expected id. -/
theorem decodeTransaction_eq_ok (hid : txId < u64Limit) :
    program.decodeTransaction bytes txId = .ok mutations ↔
      program.validateBatch mutations = .ok () ∧ bytes = program.record txId mutations := by
  rw [validateBatch_eq_ok]
  unfold decodeTransaction
  simp only [Checked.bind_eq_ok, failWhen_eq_ok, exists_const, not_not, not_lt, not_or, version_eq,
    headerLen_eq, trailerLen_eq, mutationHeaderLen_eq, maxBatchMutations_eq, Prod.exists,
    Except.ok.injEq]
  constructor
  · rintro ⟨hlen, hmagic, hversion, hreserved, htxId, ⟨hpos, hle⟩, hcrc, -, found, rest, hread, rfl, rfl⟩
    obtain ⟨hcount, hvalid, hpayload⟩ := readItems_run_ok decodeMutation_run_ok hread
    rw [List.append_nil] at hpayload
    have hfront : bytes.take (bytes.length - 4) = program.body txId found := by
      have hheader := take_eq_header (by omega) hmagic hversion hreserved htxId hcount.symm
      rw [body, ← hheader, ← hpayload]
      have htake : bytes.take 24 = (bytes.take (bytes.length - 4)).take 24 := by
        rw [List.take_take, min_eq_left (by omega)]
      rw [htake, List.take_append_drop]
    have hback : bytes.drop (bytes.length - 4) = leBytes 4 (crc32 (program.body txId found)) := by
      rw [← hfront, ← hcrc]
      have hfour : (bytes.drop (bytes.length - 4)).length = 4 := by
        rw [List.length_drop]
        omega
      conv_lhs => rw [← leBytes_leNat (bytes.drop (bytes.length - 4)), hfour]
    refine ⟨⟨?_, by omega, hvalid⟩, ?_⟩
    · rintro rfl
      exact hpos hcount.symm
    · rw [record, ← hback, ← hfront, List.take_append_drop]
  · rintro ⟨⟨hne, hle, hvalid⟩, rfl⟩
    have hbody : (program.record txId mutations).length - 4 = (program.body txId mutations).length := by
      simp [record]
    have hfield : ∀ i k, i + k ≤ 24 → slice (program.record txId mutations) i k =
        slice (program.header txId mutations.length) i k := by
      intro i k hik
      rw [record, body, List.append_assoc, slice_append_left (by simpa using hik)]
    have hcount : leNat (slice (program.record txId mutations) 20 4) = mutations.length := by
      rw [hfield 20 4 (by omega), slice_header_count, leNat_leBytes (by omega)]
    -- Every mutation takes at least its header.
    have hminimum : mutations.length * 12 ≤ (mutations.flatMap mutationBytes).length := by
      clear hcount hfield hbody hvalid hle hne
      induction mutations with
      | nil => simp
      | cons mutation mutations ih =>
        have hone : 12 ≤ (mutationBytes mutation).length := by
          cases mutation <;> simp [mutationBytes]
        simp only [List.length_cons, List.flatMap_cons, List.length_append]
        omega
    have hlen : (program.record txId mutations).length =
        24 + (mutations.flatMap mutationBytes).length + 4 := by
      simp [record, body]
      omega
    rw [hcount, hbody]
    refine ⟨by omega, ?_, ?_, ?_, ?_, ⟨?_, hle⟩, ?_, by omega, mutations, [], ?_, rfl, rfl⟩
    · rw [hfield 0 8 (by omega), slice_header_magic]
    · rw [hfield 8 2 (by omega), slice_header_version]
      decide
    · rw [hfield 10 2 (by omega), slice_header_reserved]
      decide
    · rw [u64Limit_eq] at hid
      rw [hfield 12 8 (by omega), slice_header_txId, leNat_leBytes (by omega)]
    · rwa [List.length_eq_zero_iff]
    · rw [record, List.drop_left, List.take_left, leNat_leBytes (crc32_lt _)]
    · have hitems := reads_readItems (fun mutation h => @reads_decodeMutation program mutation (hvalid mutation h)) []
      rw [List.append_nil] at hitems
      rw [record, List.take_left, body, List.drop_left' header_length]
      exact hitems

/-! ### The three programs -/

theorem decodeTransaction_program (program : Program) (bytes : Bytes) (txId : ℕ) :
    program.decodeTransaction bytes txId = readWrite.decodeTransaction bytes txId := by
  cases program <;> rfl

theorem encodeTransaction_program (program : Program) (txId : ℕ) (mutations : List Mutation) :
    program.encodeTransaction txId mutations = readWrite.encodeTransaction txId mutations := by
  cases program <;> rfl

/-- **The record of a mutation transaction.** A batch that is encoded is decoded as it was; bytes that
are accepted are what the encoder writes for what was decoded, up to the limit of a value; and the
programs encode and decode alike. -/
theorem transaction_record :
    (∀ (program : Program) txId mutations bytes, txId ≠ 0 → txId < u64Limit →
      program.validateBatch mutations = .ok () → program.encodeTransaction txId mutations = .ok bytes →
      program.decodeTransaction bytes txId = .ok mutations) ∧
    (∀ (program : Program) txId mutations bytes, txId ≠ 0 → txId < u64Limit →
      bytes.length ≤ maxValueBytes → program.decodeTransaction bytes txId = .ok mutations →
      program.encodeTransaction txId mutations = .ok bytes) ∧
    (∀ (program other : Program) txId bytes,
      program.decodeTransaction bytes txId = other.decodeTransaction bytes txId) ∧
    ∀ (program other : Program) txId mutations,
      program.encodeTransaction txId mutations = other.encodeTransaction txId mutations := by
  refine ⟨?_, ?_, ?_, ?_⟩
  · intro program txId mutations bytes _ hlt hvalid hencode
    rw [decodeTransaction_eq_ok hlt]
    exact ⟨hvalid, (encodeTransaction_eq_ok.1 hencode).2.2.2⟩
  · intro program txId mutations bytes hid hlt hlimit hdecode
    obtain ⟨hvalid, hbytes⟩ := (decodeTransaction_eq_ok hlt).1 hdecode
    have hcount := (validateBatch_eq_ok.1 hvalid).2.1
    have hmax : u32Max = 4294967295 := rfl
    exact encodeTransaction_eq_ok.2 ⟨hid, by omega, hlimit, hbytes⟩
  · intro program other txId bytes
    rw [decodeTransaction_program program, decodeTransaction_program other]
  · intro program other txId mutations
    rw [encodeTransaction_program program, encodeTransaction_program other]

/-- The record of a put and a delete, in two of the programs. -/
theorem transaction_record_put_delete :
    ∃ bytes, readWrite.encodeTransaction 1 [.put [7] [8], .delete [7]] = .ok bytes ∧
      readWrite.decodeTransaction bytes 1 = .ok [.put [7] [8], .delete [7]] ∧
      incremental.encodeTransaction 1 [.put [7] [8], .delete [7]] = .ok bytes := by
  have hid : 1 < u64Limit := by
    rw [u64Limit_eq]
    omega
  have hencode : readWrite.encodeTransaction 1 [.put [7] [8], .delete [7]] =
      .ok (readWrite.record 1 [.put [7] [8], .delete [7]]) :=
    encodeTransaction_eq_ok.2 ⟨by decide, by decide, by decide +kernel, rfl⟩
  have hdecode := transaction_record.1 readWrite 1 _ _ (by decide) hid (by decide) hencode
  have hcanonical := transaction_record.2.1 readWrite 1 _ _ (by decide) hid (by decide +kernel) hdecode
  exact ⟨_, hcanonical, hdecode, (transaction_record.2.2.2 incremental readWrite 1 _).trans hencode⟩

end DbLab.Tx.Program
