import DbLab.Tx.ReadWrite

/-!
# The snapshot of a transaction

`db-log-tx` writes its whole map as one value: a header with the number of entries, the entries in the order
of their keys with the lengths of key and value in front, and a checksum. The encoder checks the limit of a
value behind every entry; the decoder takes entries with increasing keys until nothing is left.
-/

namespace DbLab.Tx.Snapshot

def snapshotKey : Bytes :=
  [0, 100, 98, 45, 108, 97, 98, 45, 97, 116, 111, 109, 105, 99, 45, 115, 110, 97, 112, 115, 104, 111, 116,
    45, 118, 49]

def snapshotMagic : Bytes := [68, 66, 84, 88, 83, 78, 65, 80]
def snapshotVersion : ℕ := 1
def snapshotHeaderLen : ℕ := 16
def snapshotTrailerLen : ℕ := 4
def maxBatchMutations : ℕ := 1024

/-- The header in front of the entries. -/
def header (count : ℕ) : Bytes :=
  snapshotMagic ++ (leBytes 2 snapshotVersion ++ (leBytes 2 0 ++ leBytes 4 count))

/-- The bytes of one entry. -/
def entryBytes (entry : Bytes × Bytes) : Bytes :=
  leBytes 4 entry.1.length ++ (leBytes 4 entry.2.length ++ (entry.1 ++ entry.2))

def limitError : DbError :=
  .invalidInput s!"encoded atomic snapshot exceeds the {maxValueBytes}-byte backing value limit"

/-- One round of the loop of `encode_snapshot`. -/
def appendEntry (encoded : Bytes) (entry : Bytes × Bytes) : Except DbError Bytes := do
  validateKeyValue entry.1 entry.2
  failWhen (u32Max < entry.1.length) (.invalidInput "snapshot key length does not fit u32")
  failWhen (u32Max < entry.2.length) (.invalidInput "snapshot value length does not fit u32")
  failWhen (maxValueBytes < (encoded ++ entryBytes entry).length + snapshotTrailerLen) limitError
  .ok (encoded ++ entryBytes entry)

/-- Source `encode_snapshot`. -/
def encodeSnapshot (values : Committed) : Except DbError Bytes := do
  failWhen (u32Max < values.entries.length) (.invalidInput "snapshot entry count does not fit u32")
  let encoded ← values.entries.foldlM appendEntry (header values.entries.length)
  failWhen (maxValueBytes < (encoded ++ leBytes 4 (crc32 encoded)).length) limitError
  .ok (encoded ++ leBytes 4 (crc32 encoded))

/-- One round of the loop of `decode_snapshot`; the bytes in front of the cursor are taken away. -/
def decodeEntry (previousKey : Option Bytes) : Program.Reader (Bytes × Bytes) := do
  let lengths ← takeFront (corruption "atomic snapshot entry header is truncated") 8
  let payload ← takeFront (corruption "atomic snapshot entry payload is truncated")
    (leNat (slice lengths 0 4) + leNat (slice lengths 4 4))
  let key := payload.take (leNat (slice lengths 0 4))
  let value := payload.drop (leNat (slice lengths 0 4))
  checked ((validateKeyValue key value).mapError fun error =>
    corruption s!"atomic snapshot entry violates KV bounds: {errorText error}")
  checked (failWhen (∃ previous ∈ previousKey, key ≤ previous)
    (corruption "atomic snapshot keys are not strictly increasing"))
  return (key, value)

/-- The loop of `decode_snapshot`. -/
def decodeEntries : ℕ → Option Bytes → Committed → Program.Reader Committed
  | 0, _, values => pure values
  | count + 1, previousKey, values => do
    let (key, value) ← decodeEntry previousKey
    decodeEntries count (some key) (values.insert key value)

/-- Source `decode_snapshot`. -/
def decodeSnapshot (bytes : Bytes) : Except DbError Committed := do
  failWhen (bytes.length < snapshotHeaderLen + snapshotTrailerLen) (corruption "atomic snapshot is truncated")
  failWhen (slice bytes 0 8 ≠ snapshotMagic) (corruption "atomic snapshot magic mismatch")
  failWhen (leNat (slice bytes 8 2) ≠ snapshotVersion)
    (.unsupportedVersion "atomic snapshot" (leNat (slice bytes 8 2)) snapshotVersion)
  failWhen (leNat (slice bytes 10 2) ≠ 0) (corruption "atomic snapshot reserved header bits are nonzero")
  let trailerStart := bytes.length - snapshotTrailerLen
  let expectedCrc := leNat (bytes.drop trailerStart)
  let actualCrc := crc32 (bytes.take trailerStart)
  failWhen (expectedCrc ≠ actualCrc) (corruption
    s!"atomic snapshot checksum mismatch: expected {hexPad 8 expectedCrc}, computed {hexPad 8 actualCrc}")
  let count := leNat (slice bytes 12 4)
  failWhen (bytes.length < count * 8 + (snapshotHeaderLen + snapshotTrailerLen))
    (corruption "atomic snapshot entry count exceeds payload")
  let (values, rest) ← (decodeEntries count none .empty).run ((bytes.take trailerStart).drop snapshotHeaderLen)
  failWhen (rest ≠ []) (corruption "atomic snapshot has unexplained trailing payload")
  .ok values

variable {entry : Bytes × Bytes} {entries : List (Bytes × Bytes)} {values values' : Committed}
  {previousKey : Option Bytes} {bytes input rest start out : Bytes} {count n k : ℕ}

/-- An entry within the limits of keys and values. -/
def ValidEntry (entry : Bytes × Bytes) : Prop :=
  entry.1.length ≤ maxKeyBytes ∧ entry.2.length ≤ maxValueBytes

theorem entryBytes_length : (entryBytes entry).length = entry.1.length + entry.2.length + 8 := by
  simp [entryBytes]
  omega

@[simp] theorem snapshotMagic_length : snapshotMagic.length = 8 := rfl

@[simp] theorem header_length : (header n).length = 16 := by simp [header]

/-- The bytes in front of the checksum. -/
def body (entries : List (Bytes × Bytes)) : Bytes := header entries.length ++ entries.flatMap entryBytes

/-- The bytes of a snapshot. -/
def snapshotBytes (entries : List (Bytes × Bytes)) : Bytes := body entries ++ leBytes 4 (crc32 (body entries))

theorem snapshotBytes_length :
    (snapshotBytes entries).length = (entries.flatMap entryBytes).length + 20 := by
  simp [snapshotBytes, body]
  omega

/-- Every entry takes at least its lengths. -/
theorem length_mul_le : entries.length * 8 ≤ (entries.flatMap entryBytes).length := by
  induction entries with
  | nil => simp
  | cons entry entries ih =>
    rw [List.flatMap_cons, List.length_append, entryBytes_length, List.length_cons]
    omega

/-! ### Encoding -/

theorem appendEntry_eq_ok :
    appendEntry start entry = .ok out ↔
      ValidEntry entry ∧ out = start ++ entryBytes entry ∧ out.length + 4 ≤ maxValueBytes := by
  have hmax : maxKeyBytes = 4096 ∧ maxValueBytes = 1048576 ∧ u32Max = 4294967295 := ⟨rfl, rfl, rfl⟩
  simp only [appendEntry, Checked.bind_eq_ok, validateKeyValue_eq_ok, failWhen_eq_ok, not_lt, exists_const,
    Except.ok.injEq]
  constructor
  · rintro ⟨hvalid, -, -, hlimit, rfl⟩
    exact ⟨hvalid, rfl, hlimit⟩
  · rintro ⟨⟨hkey, hvalue⟩, rfl, hlimit⟩
    exact ⟨⟨hkey, hvalue⟩, by omega, by omega, hlimit, rfl⟩

/-- The loop checks the limit behind every entry, and the last check is the strongest. -/
theorem foldlM_appendEntry :
    entries.foldlM appendEntry start = .ok out ↔
      (∀ entry ∈ entries, ValidEntry entry) ∧ out = start ++ entries.flatMap entryBytes ∧
        (entries ≠ [] → out.length + 4 ≤ maxValueBytes) := by
  induction entries generalizing start with
  | nil => simp [eq_comm]
  | cons entry entries ih =>
    simp only [List.foldlM_cons, Checked.bind_eq_ok, appendEntry_eq_ok, ih, List.flatMap_cons,
      List.forall_mem_cons]
    constructor
    · rintro ⟨_, ⟨hvalid, rfl, hfirst⟩, hrest, rfl, hlimit⟩
      refine ⟨⟨hvalid, hrest⟩, by simp, fun _ => ?_⟩
      by_cases hnil : entries = []
      · subst hnil
        simpa using hfirst
      · exact hlimit hnil
    · rintro ⟨⟨hvalid, hrest⟩, rfl, hlimit⟩
      replace hlimit := hlimit (by simp)
      refine ⟨_, ⟨hvalid, rfl, ?_⟩, hrest, by simp, fun _ => hlimit⟩
      simp at hlimit ⊢
      omega

/-- **What the encoder writes**, and when. -/
theorem encodeSnapshot_eq_ok :
    encodeSnapshot values = .ok bytes ↔
      (∀ entry ∈ values.entries, ValidEntry entry) ∧ bytes = snapshotBytes values.entries ∧
        bytes.length ≤ maxValueBytes := by
  have hmax : maxValueBytes = 1048576 ∧ u32Max = 4294967295 := ⟨rfl, rfl⟩
  simp only [encodeSnapshot, Checked.bind_eq_ok, failWhen_eq_ok, not_lt, exists_const, foldlM_appendEntry,
    Except.ok.injEq]
  constructor
  · rintro ⟨-, _, ⟨hvalid, rfl, -⟩, hlimit, rfl⟩
    exact ⟨hvalid, rfl, hlimit⟩
  · rintro ⟨hvalid, rfl, hlimit⟩
    have hlen := @snapshotBytes_length values.entries
    have hcount := @length_mul_le values.entries
    refine ⟨by omega, _, ⟨hvalid, rfl, fun _ => ?_⟩, hlimit, rfl⟩
    rw [← body]
    rw [snapshotBytes, List.length_append, leBytes_length] at hlimit
    exact hlimit

/-! ### Decoding -/

theorem slice_lengths_key : slice (leBytes 4 n ++ leBytes 4 k) 0 4 = leBytes 4 n := by
  simp [slice_append_self]

theorem slice_lengths_value : slice (leBytes 4 n ++ leBytes 4 k) 4 4 = leBytes 4 k := by
  simp [slice_skip, slice_self]

/-- **What one round takes**: a valid entry whose key is above the one before. -/
theorem decodeEntry_run_ok :
    (decodeEntry previousKey).run input = .ok (entry, rest) ↔
      ValidEntry entry ∧ (∀ previous ∈ previousKey, previous < entry.1) ∧ input = entryBytes entry ++ rest := by
  have hmax : maxKeyBytes = 4096 ∧ maxValueBytes = 1048576 := ⟨rfl, rfl⟩
  simp only [decodeEntry, bind_run_ok, takeFront_run_ok, checked_run_ok, Checked.mapError_eq_ok,
    validateKeyValue_eq_ok, failWhen_eq_ok, pure_run_ok]
  constructor
  · rintro ⟨lengths, middle, ⟨hlengths, rfl⟩, payload, after, ⟨hpayload, rfl⟩, _, _, ⟨hvalid, rfl⟩, _, _, ⟨hkeys, rfl⟩,
      rfl, rfl⟩
    have hkeyLen : (payload.take (leNat (slice lengths 0 4))).length = leNat (slice lengths 0 4) := by
      rw [List.length_take]
      omega
    have hvalueLen : (payload.drop (leNat (slice lengths 0 4))).length = leNat (slice lengths 4 4) := by
      rw [List.length_drop]
      omega
    refine ⟨hvalid, fun previous hprevious => ?_, ?_⟩
    · exact lt_of_not_ge fun hle => hkeys ⟨previous, hprevious, hle⟩
    · rw [entryBytes, hkeyLen, hvalueLen, List.take_append_drop, ← slice_eq_leBytes (by omega),
        ← slice_eq_leBytes (by omega), ← List.append_assoc (slice lengths 0 4), slice_append_slice (i := 0),
        slice_self hlengths, List.append_assoc]
  · rintro ⟨⟨hkey, hvalue⟩, hkeys, rfl⟩
    refine ⟨leBytes 4 entry.1.length ++ leBytes 4 entry.2.length, entry.1 ++ entry.2 ++ rest,
      ⟨by simp, by simp [entryBytes]⟩, entry.1 ++ entry.2, rest, ?_⟩
    rw [slice_lengths_key, slice_lengths_value, leNat_leBytes (by omega), leNat_leBytes (by omega), List.take_left,
      List.drop_left]
    refine ⟨⟨List.length_append, rfl⟩, (), rest, ⟨⟨hkey, hvalue⟩, rfl⟩, (), rest, ⟨?_, rfl⟩, rfl, rfl⟩
    rintro ⟨previous, hprevious, hle⟩
    exact absurd (hkeys previous hprevious) (not_lt.2 hle)

/-- The keys increase, from a key on. -/
def Increasing : Option Bytes → List (Bytes × Bytes) → Prop
  | _, [] => True
  | previousKey, entry :: entries => (∀ previous ∈ previousKey, previous < entry.1) ∧ Increasing (some entry.1) entries

theorem decodeEntries_run_ok :
    (decodeEntries count previousKey values).run input = .ok (values', rest) ↔
      ∃ entries, entries.length = count ∧ (∀ entry ∈ entries, ValidEntry entry) ∧ Increasing previousKey entries ∧
        input = entries.flatMap entryBytes ++ rest ∧
        values' = entries.foldl (fun values entry => values.insert entry.1 entry.2) values := by
  induction count generalizing previousKey values input with
  | zero =>
    rw [decodeEntries, pure_run_ok]
    constructor
    · rintro ⟨rfl, rfl⟩
      exact ⟨[], rfl, by simp, trivial, rfl, rfl⟩
    · rintro ⟨entries, hlen, -, -, rfl, rfl⟩
      obtain rfl := List.length_eq_zero_iff.1 hlen
      exact ⟨rfl, rfl⟩
  | succ count ih =>
    simp only [decodeEntries, bind_run_ok, decodeEntry_run_ok, ih]
    constructor
    · rintro ⟨entry, middle, ⟨hvalid, hkeys, rfl⟩, entries, rfl, hall, hincreasing, rfl, rfl⟩
      refine ⟨entry :: entries, rfl, List.forall_mem_cons.2 ⟨hvalid, hall⟩, ⟨hkeys, hincreasing⟩, ?_, rfl⟩
      rw [List.flatMap_cons, List.append_assoc]
    · rintro ⟨entries, hlen, hall, hincreasing, rfl, rfl⟩
      cases entries with
      | nil => cases hlen
      | cons entry entries =>
        obtain ⟨hvalid, hrest⟩ := List.forall_mem_cons.1 hall
        refine ⟨entry, entries.flatMap entryBytes ++ rest, ⟨hvalid, hincreasing.1, ?_⟩, entries, Nat.succ.inj hlen, hrest,
          hincreasing.2, rfl, rfl⟩
        rw [List.flatMap_cons, List.append_assoc]

theorem increasing_iff : Increasing previousKey entries ↔
    SortedBy Prod.fst entries ∧ ∀ previous ∈ previousKey, ∀ entry ∈ entries, previous < entry.1 := by
  induction entries generalizing previousKey with
  | nil => simp [Increasing]
  | cons entry entries ih =>
    rw [Increasing, ih, sortedBy_cons]
    simp only [Option.mem_def, Option.some.injEq, forall_eq', List.forall_mem_cons]
    constructor
    · rintro ⟨hfirst, hsorted, habove⟩
      exact ⟨⟨habove, hsorted⟩, fun previous hprevious =>
        ⟨hfirst previous hprevious, fun next hnext => (hfirst previous hprevious).trans (habove next hnext)⟩⟩
    · rintro ⟨⟨habove, hsorted⟩, hfirst⟩
      exact ⟨fun previous hprevious => (hfirst previous hprevious).1, hsorted, habove⟩

/-- Inserting sorted entries behind all others appends them. -/
theorem foldl_insert (hsorted : SortedBy Prod.fst (values.entries ++ entries)) :
    (entries.foldl (fun values entry => values.insert entry.1 entry.2) values).entries = values.entries ++ entries := by
  induction entries generalizing values with
  | nil => rw [List.append_nil]; rfl
  | cons entry entries ih =>
    have hlast : (values.insert entry.1 entry.2).entries = values.entries ++ [entry] := by
      have habove : ∀ other ∈ values.entries, other.1 < entry.1 := fun other hother =>
        (sortedBy_append.1 hsorted).2.2 other hother entry List.mem_cons_self
      have happend := @upsertBy_append_right _ _ _ Prod.fst entry values.entries [] habove
      rw [List.append_nil] at happend
      exact happend
    rw [List.foldl_cons, ih, hlast, List.append_assoc, List.singleton_append]
    rwa [hlast, List.append_assoc, List.singleton_append]

/-- The entries of an ordered map, read one by one. -/
theorem decodeEntries_empty :
    (decodeEntries count none .empty).run input = .ok (values, rest) ↔
      values.entries.length = count ∧ (∀ entry ∈ values.entries, ValidEntry entry) ∧
        input = values.entries.flatMap entryBytes ++ rest := by
  have hnone : ∀ {l : List (Bytes × Bytes)}, Increasing none l ↔ SortedBy Prod.fst l := by
    intro l
    rw [increasing_iff]
    simp
  rw [decodeEntries_run_ok]
  constructor
  · rintro ⟨entries, hlen, hvalid, hincreasing, rfl, rfl⟩
    have hentries := @foldl_insert entries .empty (hnone.1 hincreasing)
    rw [hentries]
    exact ⟨hlen, hvalid, rfl⟩
  · rintro ⟨hlen, hvalid, rfl⟩
    refine ⟨values.entries, hlen, hvalid, hnone.2 values.sorted, rfl, ?_⟩
    have hentries := @foldl_insert values.entries .empty values.sorted
    cases values with
    | mk entries sorted =>
      cases hfold : entries.foldl (fun values entry => values.insert entry.1 entry.2) SortedMap.empty with
      | mk entries' sorted' =>
        simp only [hfold] at hentries
        subst hentries
        simp

theorem slice_header_magic : slice (header n) 0 8 = snapshotMagic := by
  rw [header, slice_append_self snapshotMagic_length]

theorem slice_header_version : slice (header n) 8 2 = leBytes 2 snapshotVersion := by
  rw [header, slice_skip snapshotMagic_length.le]
  simp [slice_append_self]

theorem slice_header_reserved : slice (header n) 10 2 = leBytes 2 0 := by
  rw [header, slice_skip (by simp)]
  simp [slice_skip, slice_append_self]

theorem slice_header_count : slice (header n) 12 4 = leBytes 4 n := by
  rw [header, slice_skip (by simp)]
  simp [slice_skip, slice_self]

/-- The first 16 bytes of a snapshot that is accepted. -/
theorem take_eq_header (hlen : 20 ≤ bytes.length) (hmagic : slice bytes 0 8 = snapshotMagic)
    (hversion : leNat (slice bytes 8 2) = snapshotVersion) (hreserved : leNat (slice bytes 10 2) = 0) :
    bytes.take 16 = header (leNat (slice bytes 12 4)) := by
  rw [← slice_eq_leBytes_iff (by omega) (by decide)] at hversion hreserved
  rw [header, ← hmagic, ← hversion, ← hreserved, ← slice_eq_leBytes (by omega), slice_append_slice,
    slice_append_slice, slice_append_slice]
  rfl

/-- **What the decoder accepts**: the snapshot of a map with valid entries. -/
theorem decodeSnapshot_eq_ok :
    decodeSnapshot bytes = .ok values ↔
      (∀ entry ∈ values.entries, ValidEntry entry) ∧ values.entries.length < 256 ^ 4 ∧
        bytes = snapshotBytes values.entries := by
  have htrailer : snapshotTrailerLen = 4 := rfl
  have hheader : snapshotHeaderLen = 16 := rfl
  unfold decodeSnapshot
  simp only [Checked.bind_eq_ok, failWhen_eq_ok, exists_const, not_not, not_lt, Prod.exists, Except.ok.injEq,
    decodeEntries_empty, htrailer, hheader]
  constructor
  · rintro ⟨hlen, hmagic, hversion, hreserved, hcrc, -, found, rest, ⟨hcount, hvalid, hpayload⟩, rfl, rfl⟩
    rw [List.append_nil] at hpayload
    have hfront : bytes.take (bytes.length - 4) = body found.entries := by
      have htake : bytes.take 16 = (bytes.take (bytes.length - 4)).take 16 := by
        rw [List.take_take, min_eq_left (by omega)]
      rw [body, ← hpayload, hcount, ← take_eq_header (by omega) hmagic hversion hreserved, htake,
        List.take_append_drop]
    have hback : bytes.drop (bytes.length - 4) = leBytes 4 (crc32 (body found.entries)) := by
      have hfour : (bytes.drop (bytes.length - 4)).length = 4 := by
        rw [List.length_drop]
        omega
      rw [← hfront, ← hcrc]
      conv_lhs => rw [← leBytes_leNat (bytes.drop (bytes.length - 4)), hfour]
    refine ⟨hvalid, ?_, ?_⟩
    · have hlt := leNat_lt (slice bytes 12 4)
      rwa [slice_length (by omega), ← hcount] at hlt
    · rw [snapshotBytes, ← hback, ← hfront, List.take_append_drop]
  · rintro ⟨hvalid, hcount, rfl⟩
    have hlen := @snapshotBytes_length values.entries
    have hleast := @length_mul_le values.entries
    have hbody : (snapshotBytes values.entries).length - 4 = (body values.entries).length := by
      simp [snapshotBytes]
    have hfield : ∀ i k, i + k ≤ 16 →
        slice (snapshotBytes values.entries) i k = slice (header values.entries.length) i k := by
      intro i k hik
      rw [snapshotBytes, body, List.append_assoc, slice_append_left (by simpa using hik)]
    rw [hbody, hfield 0 8 (by omega), hfield 8 2 (by omega), hfield 10 2 (by omega), hfield 12 4 (by omega),
      slice_header_magic, slice_header_version, slice_header_reserved, slice_header_count, leNat_leBytes hcount]
    refine ⟨by omega, rfl, by decide, by decide, ?_, by omega, values, [], ⟨rfl, hvalid, ?_⟩, rfl, rfl⟩
    · rw [snapshotBytes, List.drop_left, List.take_left, leNat_leBytes (crc32_lt _)]
    · rw [snapshotBytes, List.take_left, body, List.drop_left' header_length, List.append_nil]

/-- A snapshot that is encoded is decoded as it was. -/
theorem decodeSnapshot_encode (h : encodeSnapshot values = .ok bytes) : decodeSnapshot bytes = .ok values := by
  obtain ⟨hvalid, rfl, hlimit⟩ := encodeSnapshot_eq_ok.1 h
  have hmax : maxValueBytes = 1048576 := rfl
  have hlen := @snapshotBytes_length values.entries
  have hleast := @length_mul_le values.entries
  exact decodeSnapshot_eq_ok.2 ⟨hvalid, by omega, rfl⟩

/-- What is accepted within the limit of a value is the encoding of what is returned. -/
theorem encodeSnapshot_decode (hlimit : bytes.length ≤ maxValueBytes) (h : decodeSnapshot bytes = .ok values) :
    encodeSnapshot values = .ok bytes := by
  obtain ⟨hvalid, -, hbytes⟩ := decodeSnapshot_eq_ok.1 h
  exact encodeSnapshot_eq_ok.2 ⟨hvalid, hbytes, hlimit⟩

end DbLab.Tx.Snapshot
