import DbLab.Lib.Crc32
import DbLab.Lib.Slice
import DbLab.Lsm.Bloom

/-!
# The bytes of a Bloom filter

A filter section has a header of 40 bytes with a checksum of its own, the bits, and a checksum of all of
it. `decode` accepts exactly the sections of filters with the canonical number of bits
(`decode_eq_ok`), and a filter that was built admits each of its keys (`mayContain_of_build`).
-/

namespace DbLab.Lsm

def filterMagic : Bytes := [68, 66, 76, 83, 77, 66, 76, 77]
def filterVersion : ℕ := 1
def hashAlgorithmFnv64Double : ℕ := 1

/-- An error at an offset of the file. -/
def corruptionAt (offset : ℕ) (reason : String) : DbError := .corruption offset reason

namespace BloomFilter

variable {filter : BloomFilter} {bits bytes key : Bytes} {keys : List Bytes} {bit other count offset : ℕ}

/-! ### Encoding -/

/-- The header in front of its checksum. -/
def headerFields (bitCount keyCount payloadLen : ℕ) : Bytes :=
  filterMagic ++ (leBytes 2 filterVersion ++ (leBytes 2 filterHeaderLen ++
    (leBytes 1 hashAlgorithmFnv64Double ++ (leBytes 1 hashProbes ++ (leBytes 2 0 ++
      (leBytes 8 bitCount ++ (leBytes 8 keyCount ++ leBytes 4 payloadLen)))))))

/-- The header and the bits. -/
def body (filter : BloomFilter) : Bytes :=
  headerFields filter.bitCount filter.keyCount filter.bits.length ++
    (leBytes 4 (crc32 (headerFields filter.bitCount filter.keyCount filter.bits.length)) ++ filter.bits)

/-- Source `encode`. -/
def encode (filter : BloomFilter) : Except DbError Bytes := do
  failWhen (2 ^ 32 ≤ filter.bits.length) (corruption "Bloom payload length does not fit u32")
  .ok (filter.body ++ leBytes 4 (crc32 filter.body))

/-! ### Decoding -/

/-- Source `decode`; the section starts at an offset of the file. -/
def decode (bytes : Bytes) (offset expectedKeyCount : ℕ) : Except DbError BloomFilter := do
  failWhen (bytes.length < filterHeaderLen + filterTrailerLen)
    (corruptionAt offset "truncated Bloom filter section")
  failWhen (slice bytes 0 8 ≠ filterMagic) (corruptionAt offset "Bloom filter magic mismatch")
  failWhen (leNat (slice bytes 8 2) ≠ filterVersion)
    (.unsupportedVersion "LSM Bloom filter" (leNat (slice bytes 8 2)) filterVersion)
  failWhen (leNat (slice bytes 10 2) ≠ filterHeaderLen)
    (corruptionAt (offset + 10) "Bloom header length is not canonical")
  failWhen (leNat (slice bytes 12 1) ≠ hashAlgorithmFnv64Double)
    (corruptionAt (offset + 12) "unknown Bloom hash algorithm")
  failWhen (leNat (slice bytes 13 1) ≠ hashProbes)
    (corruptionAt (offset + 13) "Bloom probe count is not canonical")
  failWhen (leNat (slice bytes 14 2) ≠ 0) (corruptionAt (offset + 14) "Bloom flags are nonzero")
  let bitCount := leNat (slice bytes 16 8)
  let keyCount := leNat (slice bytes 24 8)
  let payloadLen := leNat (slice bytes 32 4)
  failWhen (crc32 (slice bytes 0 36) ≠ leNat (slice bytes 36 4))
    (corruptionAt (offset + 36) "Bloom header checksum mismatch")
  failWhen (keyCount ≠ expectedKeyCount) (corruptionAt (offset + 24)
    s!"Bloom key count {keyCount} does not match SSTable entry count {expectedKeyCount}")
  let canonicalBits ← canonicalBitCount keyCount
  failWhen (bitCount ≠ canonicalBits ∨ bitCount % 8 ≠ 0)
    (corruptionAt (offset + 16) "Bloom bit count is not canonical")
  failWhen (payloadLen ≠ bitCount / 8)
    (corruptionAt (offset + 32) "Bloom payload length disagrees with bit count")
  let payloadEnd := filterHeaderLen + payloadLen
  failWhen (bytes.length ≠ payloadEnd + filterTrailerLen)
    (corruptionAt offset "Bloom section is not an exact canonical extent")
  failWhen (crc32 (slice bytes 0 payloadEnd) ≠ leNat (slice bytes payloadEnd filterTrailerLen))
    (corruptionAt (offset + payloadEnd) "Bloom section checksum mismatch")
  .ok ⟨bitCount, keyCount, slice bytes filterHeaderLen payloadLen⟩

/-! ### Bits -/

/-- Whether a bit is set. -/
def hasBit (bits : Bytes) (bit : ℕ) : Bool := (bits.getD (bit / 8) 0).val.testBit (bit % 8)

@[simp] theorem setBit_length : (setBit bits bit).length = bits.length := by simp [setBit]

theorem testBit_lowByte {n i : ℕ} (h : i < 8) : (lowByte n).val.testBit i = n.testBit i := by
  show (n % 2 ^ 8).testBit i = n.testBit i
  rw [Nat.testBit_mod_two_pow]
  simp [h]

theorem hasBit_setBit_self (h : bit / 8 < bits.length) : hasBit (setBit bits bit) bit = true := by
  have hlow : bit % 8 < 8 := Nat.mod_lt _ (by omega)
  simp [hasBit, setBit, List.getD_eq_getElem?_getD, h, testBit_lowByte hlow, -lowByte_val]

/-- Setting a bit clears none. -/
theorem hasBit_setBit (h : hasBit bits other = true) : hasBit (setBit bits bit) other = true := by
  have hlow : other % 8 < 8 := Nat.mod_lt _ (by omega)
  by_cases hsame : bit / 8 = other / 8
  · by_cases hin : other / 8 < bits.length
    · simp only [hasBit, List.getD_eq_getElem?_getD, List.getElem?_eq_getElem hin, Option.getD_some] at h
      simp [hasBit, setBit, List.getD_eq_getElem?_getD, hsame, hin, testBit_lowByte hlow, -lowByte_val, h]
    · simp [hasBit, List.getD_eq_getElem?_getD, hin] at h
  · simpa [hasBit, setBit, List.getD_eq_getElem?_getD, List.getElem?_modify, hsame] using h

theorem foldl_setBit_length (positions : List ℕ) :
    (positions.foldl setBit bits).length = bits.length := by
  induction positions generalizing bits with
  | nil => rfl
  | cons bit positions ih => simp [ih]

theorem hasBit_foldl (positions : List ℕ) (h : hasBit bits other = true) :
    hasBit (positions.foldl setBit bits) other = true := by
  induction positions generalizing bits with
  | nil => exact h
  | cons bit positions ih => exact ih (hasBit_setBit h)

/-- All the positions that were set are set in the end. -/
theorem hasBit_of_mem {positions : List ℕ} (hin : ∀ bit ∈ positions, bit / 8 < bits.length)
    (h : other ∈ positions) : hasBit (positions.foldl setBit bits) other = true := by
  induction positions generalizing bits with
  | nil => cases h
  | cons bit positions ih =>
    obtain ⟨hbit, hrest⟩ := List.forall_mem_cons.1 hin
    rcases List.mem_cons.1 h with rfl | h
    · exact hasBit_foldl positions (hasBit_setBit_self hbit)
    · exact @ih (setBit bits bit) (by simpa using hrest) h

/-! ### Filters -/

/-- A filter with the canonical number of bits for its keys, all of them present. -/
structure WellFormed (filter : BloomFilter) : Prop where
  canonical : canonicalBitCount filter.keyCount = .ok filter.bitCount
  length_eq : filter.bits.length = filter.bitCount / 8

theorem canonicalBitCount_eq_ok :
    canonicalBitCount count = .ok bit ↔
      count ≠ 0 ∧ count * bitsPerKey < u64Limit ∧ max (count * bitsPerKey) minFilterBits + 7 < u64Limit ∧
        bit = (max (count * bitsPerKey) minFilterBits + 7) / 8 * 8 := by
  unfold canonicalBitCount
  split_ifs with hzero hmul
  · simp [hzero]
  · simp only [false_iff]
    omega
  · simp only [Checked.bind_eq_ok, checkedAdd_eq_ok, Except.ok.injEq]
    constructor
    · rintro ⟨_, ⟨hadd, rfl⟩, rfl⟩
      exact ⟨hzero, by omega, hadd, rfl⟩
    · rintro ⟨-, -, hadd, rfl⟩
      exact ⟨_, ⟨hadd, rfl⟩, rfl⟩

/-- A canonical number of bits is a positive multiple of eight. -/
theorem canonicalBitCount_spec (h : canonicalBitCount count = .ok bit) :
    0 < bit ∧ bit % 8 = 0 ∧ bit < u64Limit ∧ 0 < count ∧ count < u64Limit := by
  obtain ⟨hzero, hmul, hadd, rfl⟩ := canonicalBitCount_eq_ok.1 h
  have hbits : bitsPerKey = 10 := rfl
  have hmin : minFilterBits = 64 := rfl
  rw [hbits] at hmul hadd ⊢
  omega

theorem probePositions_lt (h : 0 < count) : ∀ bit ∈ probePositions key count, bit < count := by
  intro bit hbit
  obtain ⟨probe, -, rfl⟩ := List.mem_map.1 hbit
  exact Nat.mod_lt _ h

/-- Every probe of a well-formed filter is inside of its bits. -/
theorem WellFormed.probe_lt (h : filter.WellFormed) :
    ∀ bit ∈ probePositions key filter.bitCount, bit < filter.bitCount ∧ bit / 8 < filter.bits.length := by
  intro bit hbit
  obtain ⟨hpos, hmod, -⟩ := canonicalBitCount_spec h.canonical
  have hlt := probePositions_lt hpos bit hbit
  rw [h.length_eq]
  omega

@[simp] theorem insert_bitCount : (filter.insert key).bitCount = filter.bitCount := by rw [insert]

@[simp] theorem insert_keyCount : (filter.insert key).keyCount = filter.keyCount := by rw [insert]

theorem insert_bits :
    (filter.insert key).bits = (probePositions key filter.bitCount).foldl setBit filter.bits := by
  rw [insert]

theorem WellFormed.insert (h : filter.WellFormed) : (filter.insert key).WellFormed := by
  constructor
  · rw [insert_keyCount, insert_bitCount]
    exact h.canonical
  · rw [insert_bits, foldl_setBit_length, insert_bitCount]
    exact h.length_eq

theorem mayContain_iff :
    filter.mayContain key = true ↔
      ∀ bit ∈ probePositions key filter.bitCount, hasBit filter.bits bit = true :=
  List.all_eq_true

theorem mayContain_insert_self (h : filter.WellFormed) : (filter.insert key).mayContain key = true := by
  rw [mayContain_iff, insert_bits, insert_bitCount]
  intro bit hbit
  exact hasBit_of_mem (fun bit hbit => (h.probe_lt bit hbit).2) hbit

theorem mayContain_insert {added : Bytes} (h : filter.mayContain key = true) :
    (filter.insert added).mayContain key = true := by
  rw [mayContain_iff] at h ⊢
  rw [insert_bits, insert_bitCount]
  intro bit hbit
  exact hasBit_foldl _ (h bit hbit)

/-- The insertions keep the form of the filter and the keys that it admits, and add theirs. -/
theorem foldl_insert (keys : List Bytes) (h : filter.WellFormed) :
    (keys.foldl BloomFilter.insert filter).WellFormed ∧
      (keys.foldl BloomFilter.insert filter).keyCount = filter.keyCount ∧
      ∀ key, key ∈ keys ∨ filter.mayContain key = true →
        (keys.foldl BloomFilter.insert filter).mayContain key = true := by
  induction keys generalizing filter with
  | nil => exact ⟨h, rfl, by simp⟩
  | cons added keys ih =>
    obtain ⟨hform, hcount, hcontain⟩ := ih h.insert
    refine ⟨hform, hcount.trans insert_keyCount, ?_⟩
    rintro key (hmem | hkept)
    · rcases List.mem_cons.1 hmem with rfl | hmem
      · exact hcontain key (.inr (mayContain_insert_self h))
      · exact hcontain key (.inl hmem)
    · exact hcontain key (.inr (mayContain_insert hkept))

/-- **A filter that was built** has the canonical form and admits all its keys. -/
theorem build_spec (h : build keys count = .ok filter) :
    filter.WellFormed ∧ filter.keyCount = count ∧ keys.length = count ∧
      ∀ key ∈ keys, filter.mayContain key = true := by
  simp only [build, Checked.bind_eq_ok, failWhen_eq_ok, exists_const, not_not, Except.ok.injEq] at h
  obtain ⟨-, bitCount, hcanonical, hcount, rfl⟩ := h
  have hempty : WellFormed ⟨bitCount, count, List.replicate (bitCount / 8) 0⟩ :=
    ⟨hcanonical, List.length_replicate⟩
  obtain ⟨hform, hkeyCount, hcontain⟩ := foldl_insert keys hempty
  exact ⟨hform, hkeyCount, hcount, fun key hkey => hcontain key (.inl hkey)⟩

/-! ### The section -/

/-- The section of a filter. -/
def sectionBytes (filter : BloomFilter) : Bytes := filter.body ++ leBytes 4 (crc32 filter.body)

theorem encode_eq_ok :
    filter.encode = .ok bytes ↔ filter.bits.length < 2 ^ 32 ∧ bytes = filter.sectionBytes := by
  simp only [encode, sectionBytes, Checked.bind_eq_ok, failWhen_eq_ok, exists_const, not_le,
    Except.ok.injEq]
  constructor
  · rintro ⟨hlen, rfl⟩
    exact ⟨hlen, rfl⟩
  · rintro ⟨hlen, rfl⟩
    exact ⟨hlen, rfl⟩

@[simp] theorem filterMagic_length : filterMagic.length = 8 := by simp [filterMagic]

@[simp] theorem headerFields_length {payload : ℕ} : (headerFields bit count payload).length = 36 := by
  simp [headerFields]

@[simp] theorem body_length : filter.body.length = 40 + filter.bits.length := by
  simp [body]
  omega

section HeaderFields

variable {payload : ℕ}

theorem headerFields_magic : slice (headerFields bit count payload) 0 8 = filterMagic := by
  simp [headerFields, slice_append_self]

theorem headerFields_version : slice (headerFields bit count payload) 8 2 = leBytes 2 filterVersion := by
  simp [headerFields, slice_skip, slice_append_self]

theorem headerFields_headerLen :
    slice (headerFields bit count payload) 10 2 = leBytes 2 filterHeaderLen := by
  simp [headerFields, slice_skip, slice_append_self]

theorem headerFields_algorithm :
    slice (headerFields bit count payload) 12 1 = leBytes 1 hashAlgorithmFnv64Double := by
  simp [headerFields, slice_skip, slice_append_self]

theorem headerFields_probes : slice (headerFields bit count payload) 13 1 = leBytes 1 hashProbes := by
  simp [headerFields, slice_skip, slice_append_self]

theorem headerFields_flags : slice (headerFields bit count payload) 14 2 = leBytes 2 0 := by
  simp [headerFields, slice_skip, slice_append_self]

theorem headerFields_bitCount : slice (headerFields bit count payload) 16 8 = leBytes 8 bit := by
  simp [headerFields, slice_skip, slice_append_self]

theorem headerFields_keyCount : slice (headerFields bit count payload) 24 8 = leBytes 8 count := by
  simp [headerFields, slice_skip, slice_append_self]

theorem headerFields_payload : slice (headerFields bit count payload) 32 4 = leBytes 4 payload := by
  simp [headerFields, slice_skip, slice_self]

/-- Bytes with the fields of a header start with that header. -/
theorem take_eq_headerFields (hlen : 36 ≤ bytes.length) (hmagic : slice bytes 0 8 = filterMagic)
    (hversion : leNat (slice bytes 8 2) = filterVersion)
    (hheaderLen : leNat (slice bytes 10 2) = filterHeaderLen)
    (halgorithm : leNat (slice bytes 12 1) = hashAlgorithmFnv64Double)
    (hprobes : leNat (slice bytes 13 1) = hashProbes) (hflags : leNat (slice bytes 14 2) = 0) :
    slice bytes 0 36 =
      headerFields (leNat (slice bytes 16 8)) (leNat (slice bytes 24 8)) (leNat (slice bytes 32 4)) := by
  rw [← slice_eq_leBytes_iff (by omega) (by decide)] at hversion hheaderLen halgorithm hprobes hflags
  rw [headerFields, ← hmagic, ← hversion, ← hheaderLen, ← halgorithm, ← hprobes, ← hflags,
    ← slice_eq_leBytes (by omega), ← slice_eq_leBytes (by omega), ← slice_eq_leBytes (by omega),
    slice_append_slice, slice_append_slice, slice_append_slice, slice_append_slice, slice_append_slice,
    slice_append_slice, slice_append_slice, slice_append_slice]

end HeaderFields

/-- **What `decode` accepts**: the section of a well-formed filter with the expected number of keys. -/
theorem decode_eq_ok :
    decode bytes offset count = .ok filter ↔
      filter.WellFormed ∧ filter.keyCount = count ∧ filter.bits.length < 2 ^ 32 ∧
        bytes = filter.sectionBytes := by
  have hlens : filterHeaderLen = 40 ∧ filterTrailerLen = 4 := ⟨rfl, rfl⟩
  unfold decode
  simp only [Checked.bind_eq_ok, failWhen_eq_ok, exists_const, not_not, not_lt, not_or, Except.ok.injEq,
    hlens]
  constructor
  · rintro ⟨hlen, hmagic, hversion, hheaderLen, halgorithm, hprobes, hflags, hheaderCrc, hcount, _,
      hcanonical, ⟨rfl, -⟩, hpayload, htotal, hcrc, rfl⟩
    -- The section is the header, its checksum, the bits and the checksum of all before.
    have hbits : (slice bytes 40 (leNat (slice bytes 32 4))).length = leNat (slice bytes 32 4) :=
      slice_length (by omega)
    have hfour : leNat (slice bytes 32 4) < 256 ^ 4 := by
      have hlt := leNat_lt (slice bytes 32 4)
      rwa [slice_length (by omega)] at hlt
    have hheader := take_eq_headerFields (by omega) hmagic hversion (by omega) halgorithm hprobes hflags
    have hbody : body ⟨leNat (slice bytes 16 8), leNat (slice bytes 24 8),
        slice bytes 40 (leNat (slice bytes 32 4))⟩ = slice bytes 0 (40 + leNat (slice bytes 32 4)) := by
      rw [body, hbits, ← hheader, hheaderCrc, ← slice_eq_leBytes (by omega), slice_append_slice,
        slice_append_slice]
      congr 1
      omega
    refine ⟨⟨hcanonical, hbits.trans hpayload⟩, hcount, hbits.trans_lt (by omega), ?_⟩
    rw [sectionBytes, hbody, hcrc, ← slice_eq_leBytes (by omega)]
    have hjoin := @slice_append_slice bytes 0 (40 + leNat (slice bytes 32 4)) 4
    rw [Nat.zero_add] at hjoin
    rw [hjoin, ← htotal, slice_self rfl]
  · rintro ⟨hform, rfl, hbits, rfl⟩
    -- Back: each field of the encoded section reads as the filter has it.
    obtain ⟨hpos, hmod, hbitsLt, -, hcountLt⟩ := canonicalBitCount_spec hform.canonical
    rw [u64Limit_eq] at hbitsLt hcountLt
    have htotal : filter.sectionBytes.length = 40 + filter.bits.length + 4 := by simp [sectionBytes]
    have hfield : ∀ i k, i + k ≤ 36 → slice filter.sectionBytes i k =
        slice (headerFields filter.bitCount filter.keyCount filter.bits.length) i k := by
      intro i k hik
      rw [sectionBytes, body, List.append_assoc, slice_append_left (by simpa using hik)]
    have hcrcField : slice filter.sectionBytes 36 4 =
        leBytes 4 (crc32 (headerFields filter.bitCount filter.keyCount filter.bits.length)) := by
      simp [sectionBytes, body, slice_skip, slice_append_self]
    have hpayload : leNat (slice filter.sectionBytes 32 4) = filter.bits.length := by
      rw [hfield 32 4 (by omega), headerFields_payload, leNat_leBytes (by omega)]
    have hbitCount : leNat (slice filter.sectionBytes 16 8) = filter.bitCount := by
      rw [hfield 16 8 (by omega), headerFields_bitCount, leNat_leBytes (by omega)]
    have hkeyCount : leNat (slice filter.sectionBytes 24 8) = filter.keyCount := by
      rw [hfield 24 8 (by omega), headerFields_keyCount, leNat_leBytes (by omega)]
    have hfront : slice filter.sectionBytes 0 (40 + filter.bits.length) = filter.body := by
      rw [sectionBytes, slice_append_self body_length]
    rw [hpayload, hbitCount, hkeyCount]
    refine ⟨by omega, ?_, ?_, ?_, ?_, ?_, ?_, ?_, rfl, filter.bitCount, hform.canonical, ⟨rfl, hmod⟩,
      hform.length_eq, htotal, ?_, ?_⟩
    · rw [hfield 0 8 (by omega), headerFields_magic]
    · rw [hfield 8 2 (by omega), headerFields_version]
      decide
    · rw [hfield 10 2 (by omega), headerFields_headerLen]
      decide
    · rw [hfield 12 1 (by omega), headerFields_algorithm]
      decide
    · rw [hfield 13 1 (by omega), headerFields_probes]
      decide
    · rw [hfield 14 2 (by omega), headerFields_flags]
      decide
    · rw [hfield 0 36 (by omega), slice_self headerFields_length, hcrcField, leNat_leBytes (crc32_lt _)]
    · rw [hfront, sectionBytes, slice_skip (by simp), body_length, Nat.sub_self,
        slice_self (leBytes_length ..), leNat_leBytes (crc32_lt _)]
    · have hpart : slice filter.sectionBytes 40 filter.bits.length = filter.bits := by
        simp [sectionBytes, body, slice_skip, slice_append_self]
      rw [hpart]

/-- **Bloom filters.** A filter admits every key it was built from, as built and as read back; reading
back gives the same filter; and bytes that are accepted for a number of keys are the only ones for the
filter that they give, all probes of which are inside of its bits. -/
theorem filter_codec :
    (∀ keys count filter, build keys count = .ok filter → ∀ key ∈ keys, filter.mayContain key = true) ∧
    (∀ keys count filter bytes offset, build keys count = .ok filter → filter.encode = .ok bytes →
      decode bytes offset count = .ok filter ∧
        ∀ decoded, decode bytes offset count = .ok decoded → ∀ key ∈ keys, decoded.mayContain key = true) ∧
    ∀ bytes offset count filter, decode bytes offset count = .ok filter →
      filter.encode = .ok bytes ∧
        ∀ key, ∀ bit ∈ probePositions key filter.bitCount,
          bit < filter.bitCount ∧ bit / 8 < filter.bits.length := by
  refine ⟨?_, ?_, ?_⟩
  · intro keys count filter hbuild
    exact (build_spec hbuild).2.2.2
  · intro keys count filter bytes offset hbuild hencode
    obtain ⟨hform, hcount, -, hcontain⟩ := build_spec hbuild
    obtain ⟨hlen, rfl⟩ := encode_eq_ok.1 hencode
    have hdecode : decode filter.sectionBytes offset count = .ok filter :=
      decode_eq_ok.2 ⟨hform, hcount, hlen, rfl⟩
    refine ⟨hdecode, ?_⟩
    intro decoded hdecoded
    obtain rfl := Except.ok.inj (hdecode.symm.trans hdecoded)
    exact hcontain
  · intro bytes offset count filter hdecode
    obtain ⟨hform, -, hlen, hbytes⟩ := decode_eq_ok.1 hdecode
    exact ⟨encode_eq_ok.2 ⟨hlen, hbytes⟩, fun key => hform.probe_lt⟩

/-- The filter of two keys, read back. -/
theorem filter_codec_pair :
    ∃ filter bytes, build [[1], [2]] 2 = .ok filter ∧ filter.mayContain [2] = true ∧
      filter.encode = .ok bytes ∧ decode bytes 64 2 = .ok filter := by
  have hbuild : (build [[1], [2]] 2).isOk = true := by
    rw [build]
    simp only [canonicalBitCount, u64Limit_eq, checkedAdd]
    decide +kernel
  cases hfilter : build [[1], [2]] 2 with
  | error e =>
    rw [hfilter] at hbuild
    cases hbuild
  | ok filter =>
    have hmember := filter_codec.1 _ _ _ hfilter [2] (by decide)
    obtain ⟨hform, hcount, -, -⟩ := build_spec hfilter
    have hsmall : filter.bits.length < 2 ^ 32 := by
      have hcanonical := hform.canonical
      rw [hcount, canonicalBitCount_eq_ok] at hcanonical
      have hbits : minFilterBits = 64 ∧ bitsPerKey = 10 := ⟨rfl, rfl⟩
      rw [hform.length_eq]
      omega
    have hencode : filter.encode = .ok filter.sectionBytes := encode_eq_ok.2 ⟨hsmall, rfl⟩
    have hdecode := (filter_codec.2.1 _ _ _ _ 64 hfilter hencode).1
    exact ⟨filter, _, rfl, hmember, (filter_codec.2.2 _ _ _ _ hdecode).1, hdecode⟩

end BloomFilter
end DbLab.Lsm
