import DbLab.Generation.Prefix
import DbLab.Lib.CrcTable

/-!
# The checksum of a committed prefix

`Crc32Ieee` steps through a table of 256 registers, and is updated with whatever a read returns. It is the
bitwise CRC-32 of all the bytes, so the publication and the verification of a prefix compute one checksum,
however their reads cut the file. With it the marker codec is a bijection on what its writer accepts.
-/

namespace DbLab.Generation

open Log

def crc32Polynomial : BitVec 32 := 0xEDB88320#32

/-- One round of the inner loop of `build_crc32_table`. -/
def tableBit (crc : BitVec 32) : BitVec 32 :=
  if crc &&& 1#32 = 1#32 then (crc >>> 1) ^^^ crc32Polynomial else crc >>> 1

/-- Source `build_crc32_table`. -/
def buildCrc32Table : List (BitVec 32) := (List.range 256).map fun index => tableBit^[8] (BitVec.ofNat 32 index)

structure Crc32Ieee where
  state : BitVec 32

namespace Crc32Ieee

def new : Crc32Ieee := ⟨BitVec.allOnes 32⟩

/-- One round of the loop of `update`. -/
def updateByte (hasher : Crc32Ieee) (byte : Byte) : Crc32Ieee :=
  ⟨(hasher.state >>> 8) ^^^ buildCrc32Table.getD ((hasher.state ^^^ BitVec.ofNat 32 byte.val) &&& 0xff#32).toNat 0⟩

def update (hasher : Crc32Ieee) (bytes : Bytes) : Crc32Ieee := bytes.foldl updateByte hasher

def finalize (hasher : Crc32Ieee) : ℕ := (~~~hasher.state).toNat

end Crc32Ieee

/-- Source `crc32_ieee`. -/
def crc32Ieee (bytes : Bytes) : ℕ := (Crc32Ieee.new.update bytes).finalize

variable {hasher : Crc32Ieee} {bytes : Bytes}

theorem tableBit_eq (crc : BitVec 32) : tableBit crc = crcBit crc := by
  unfold tableBit crcBit
  rw [BitVec.and_one_eq_setWidth_ofBool_getLsbD]
  cases crc.getLsbD 0 with
  | false => rfl
  | true => rfl

/-- An entry of the table. -/
theorem buildCrc32Table_get {index : ℕ} (h : index < 256) :
    buildCrc32Table.getD index 0 = crcBit^[8] (BitVec.ofNat 32 index) := by
  have hbit : tableBit = crcBit := funext tableBit_eq
  rw [buildCrc32Table, List.getD_eq_getElem?_getD, List.getElem?_map, List.getElem?_range h, hbit]
  rfl

theorem low_toNat_lt (c : BitVec 32) : (c &&& 0xff#32).toNat < 256 := by
  rw [BitVec.toNat_and]
  exact Nat.and_lt_two_pow _ (by decide : (0xff#32).toNat < 2 ^ 8)

namespace Crc32Ieee

/-- **The table is right for all states**: a step through it is the bitwise step. -/
theorem updateByte_state (byte : Byte) : (hasher.updateByte byte).state = crcByte hasher.state byte := by
  rw [updateByte, crcByte_eq, buildCrc32Table_get (low_toNat_lt _), BitVec.ofNat_toNat, BitVec.setWidth_eq]

theorem update_state : (hasher.update bytes).state = crcRegister bytes hasher.state := by
  induction bytes generalizing hasher with
  | nil => rfl
  | cons byte bytes ih =>
    rw [update, List.foldl_cons, ← update, ih, updateByte_state]
    rfl

theorem update_append (first second : Bytes) :
    hasher.update (first ++ second) = (hasher.update first).update second := List.foldl_append

/-- **The cuts between the updates do not matter.** -/
theorem foldl_update (parts : List Bytes) : parts.foldl update hasher = hasher.update parts.flatten := by
  induction parts generalizing hasher with
  | nil => rfl
  | cons part parts ih => rw [List.foldl_cons, ih, List.flatten_cons, update_append]

end Crc32Ieee

/-- **The hasher is the bitwise CRC-32.** -/
theorem crc32Ieee_eq (bytes : Bytes) : crc32Ieee bytes = crc32 bytes := by
  rw [crc32Ieee, Crc32Ieee.finalize, Crc32Ieee.update_state, crc32]
  rfl

/-! ### Reading in parts -/

/-- What a read of at most `wanted` bytes returns: it may be short, but at the end of the file only is it empty. -/
def readSome (offer wanted : ℕ) (rest : Bytes) : Bytes := rest.take (min wanted (offer + 1))

/-- What the loop of reads has: the hasher, the bytes that were read, and those behind them. -/
structure Streamed where
  hasher : Crc32Ieee
  read : Bytes
  rest : Bytes

/-- The loop of `derive_prefix_proof` and `verify_committed_prefix` over `remaining` bytes, in parts of at most
`buffer` bytes, where `offers` says how much each read has. An error has the number of bytes that are missing. -/
def stream (buffer : ℕ) (offers : ℕ → ℕ) (remaining : ℕ) (s : Streamed) : Except ℕ Streamed :=
  if hdone : remaining = 0 then .ok s
  else
    let part := readSome (offers 0) (min remaining buffer) s.rest
    if hend : part = [] then .error remaining
    else stream buffer (fun round => offers (round + 1)) (remaining - part.length)
      ⟨s.hasher.update part, s.read ++ part, s.rest.drop part.length⟩
termination_by remaining
decreasing_by
  have hpos : 0 < part.length := List.length_pos_iff.2 hend
  exact Nat.sub_lt (Nat.pos_of_ne_zero hdone) hpos

def crcBufferBytes : ℕ := 65536
def copyBufferBytes : ℕ := 65536

/-- `derive_prefix_proof` with its reads. -/
def derivePrefixProofReading (offers : ℕ → ℕ) (file : Bytes) (report : VerificationReport) :
    Except GenerationError CommittedPrefix :=
  match stream crcBufferBytes offers report.fileBytes ⟨.new, [], file⟩ with
  | .error missing => .error (.invalid s!"generation reached EOF with {missing} proof bytes still expected")
  | .ok s =>
    if s.rest ≠ [] then .error (.invalid "generation changed while its committed-prefix checksum was derived")
    else
      .ok
        { bytes := report.fileBytes
          crc32 := s.hasher.finalize
          recordCount := report.recordCount
          nextSequence := report.nextSequence }

/-- `verify_committed_prefix` with its reads; the bytes that were read are in the temporary file. -/
def verifyCommittedPrefixReading (offers : ℕ → ℕ) (file : Bytes) (proof : CommittedPrefix) :
    Except GenerationError VerificationReport :=
  if file.length < proof.bytes then
    .error (.invalid
      s!"marker binds {proof.bytes} bytes but source file has only {file.length} bytes")
  else
    match stream copyBufferBytes offers proof.bytes ⟨.new, [], file⟩ with
    | .error missing =>
      .error (.invalid s!"source reached EOF with {missing} marker-bound prefix bytes still expected")
    | .ok s =>
      if s.hasher.finalize ≠ proof.crc32 then
        .error (.invalid s!"marker-bound prefix checksum mismatch: marker {hexPad 8 proof.crc32}, computed {hexPad 8 s.hasher.finalize}")
      else do
        let report ← verifyLog s.read
        if report.recoverableTail.isSome then
          .error (.invalid
            "marker-bound prefix is not a complete append-log image; it ends in a recoverable tail")
        else if report.fileBytes ≠ proof.bytes ∨ report.validBytes ≠ proof.bytes then
          .error (.invalid s!"marker-bound prefix structural length mismatch: marker {proof.bytes}, file {report.fileBytes}, valid {report.validBytes}")
        else if report.recordCount ≠ proof.recordCount then
          .error (.invalid s!"marker-bound prefix record count mismatch: marker {proof.recordCount}, verified {report.recordCount}")
        else if report.nextSequence ≠ proof.nextSequence then
          .error (.invalid s!"marker-bound prefix next sequence mismatch: marker {proof.nextSequence}, verified {report.nextSequence}")
        else .ok report

section Streaming

variable {buffer remaining : ℕ} {offers : ℕ → ℕ} {s : Streamed}

theorem readSome_eq_nil {offer wanted : ℕ} {rest : Bytes} : readSome offer wanted rest = [] ↔ wanted = 0 ∨ rest = [] := by
  simp [readSome]

/-- **The loop reads the bytes that it wants**, if the file has them, however short the reads are. -/
theorem stream_eq (hbuffer : 0 < buffer) :
    stream buffer offers remaining s =
      if remaining ≤ s.rest.length then
        .ok ⟨s.hasher.update (s.rest.take remaining), s.read ++ s.rest.take remaining, s.rest.drop remaining⟩
      else .error (remaining - s.rest.length) := by
  induction remaining using Nat.strong_induction_on generalizing offers s with
  | _ remaining ih =>
    rw [stream]
    by_cases hzero : remaining = 0
    · rw [dif_pos hzero, hzero, if_pos (Nat.zero_le _), List.take_zero, List.drop_zero, List.append_nil]
      rfl
    rw [dif_neg hzero]
    dsimp only
    by_cases hend : s.rest = []
    · rw [dif_pos (readSome_eq_nil.2 (.inr hend)), hend, List.length_nil, if_neg (by omega), Nat.sub_zero]
    have hpart : readSome (offers 0) (min remaining buffer) s.rest ≠ [] :=
      fun h => (readSome_eq_nil.1 h).elim (by omega) hend
    rw [dif_neg hpart]
    -- the part is the first bytes of the rest, so what is read behind it continues it
    obtain ⟨count, hcount, htake⟩ : ∃ count ≤ remaining,
        readSome (offers 0) (min remaining buffer) s.rest = s.rest.take count :=
      ⟨_, (min_le_left _ _).trans (min_le_left _ _), rfl⟩
    rw [htake] at hpart ⊢
    have hlen : (s.rest.take count).length = min count s.rest.length := List.length_take
    have hpos := List.length_pos_iff.2 hpart
    rw [ih _ (by omega), hlen]
    dsimp only
    rw [List.length_drop]
    by_cases hfits : remaining ≤ s.rest.length
    · have hmin : min count s.rest.length = count := by omega
      have hsplit : s.rest.take count ++ (s.rest.drop count).take (remaining - count) = s.rest.take remaining := by
        rw [← List.take_add]
        congr 1
        omega
      rw [hmin, if_pos hfits, if_pos (by omega), ← Crc32Ieee.update_append, List.append_assoc, hsplit, List.drop_drop]
      congr 3
      omega
    · rw [if_neg hfits, if_neg (by omega)]
      congr 1
      omega

end Streaming

variable {file : Bytes} {report : VerificationReport} {proof : CommittedPrefix}

theorem finalize_update_new : (Crc32Ieee.new.update bytes).finalize = crc32 bytes := crc32Ieee_eq bytes

/-- **The publication computes the checksum of the bytes**, however its reads cut them. -/
theorem derivePrefixProofReading_eq (offers : ℕ → ℕ) :
    derivePrefixProofReading offers file report = derivePrefixProof file report := by
  rw [derivePrefixProofReading, stream_eq (by decide), derivePrefixProof]
  by_cases hfits : report.fileBytes ≤ file.length
  · rw [if_pos hfits, if_neg (not_lt.2 hfits)]
    dsimp only
    rw [finalize_update_new]
    have hrest : file.drop report.fileBytes ≠ [] ↔ report.fileBytes < file.length := by
      rw [ne_eq, List.drop_eq_nil_iff, not_le]
    by_cases hlong : report.fileBytes < file.length
    · rw [if_pos (hrest.2 hlong), if_pos hlong]
    · rw [if_neg (mt hrest.1 hlong), if_neg hlong]
  · rw [if_neg hfits, if_pos (not_le.1 hfits)]

/-- **The verification computes the same checksum**, of the same bytes. -/
theorem verifyCommittedPrefixReading_eq (offers : ℕ → ℕ) :
    verifyCommittedPrefixReading offers file proof = verifyCommittedPrefix file proof := by
  rw [verifyCommittedPrefixReading, stream_eq (by decide), verifyCommittedPrefix]
  by_cases hshort : file.length < proof.bytes
  · rw [if_pos hshort, if_pos hshort]
  · rw [if_neg hshort, if_neg hshort, if_pos (not_lt.1 hshort)]
    dsimp only
    rw [finalize_update_new, List.nil_append]

/-! ### The codec -/

variable {generationId : ℕ} {p : CommittedPrefix} {marker : CommitMarker}

/-- The fields of a committed prefix are 64 and 32 bits wide. -/
structure CommittedPrefix.Wide (p : CommittedPrefix) : Prop where
  bytes : p.bytes < u64Limit
  crc32 : p.crc32 < 256 ^ 4

/-- **What is accepted is the encoding** of the marker that was read. -/
theorem decodeCommitMarker_eq_ok (h : decodeCommitMarker bytes generationId = .ok marker) :
    (marker.generationId = generationId ∧ marker.logFormatVersion = appendLogFormatVersion) ∧
      encodeCommitMarker marker.generationId marker.committedPrefix = .ok bytes := by
  unfold decodeCommitMarker at h
  simp only [Checked.bind_eq_ok, Checked.guard_eq_ok, validateGeneration_eq_ok, validateCommittedPrefix_eq_ok,
    not_not, not_or, Except.ok.injEq] at h
  obtain ⟨-, -, hlen, hmagic, hcrc, hversion, hheader, ⟨hpos, hid⟩, hformat, hreserved, -, hvalid, hflags, hreserved2,
    rfl⟩ := h
  have hpow : u64Limit = 256 ^ 8 := by rw [u64Limit_eq]; decide
  have hlen : bytes.length = 64 := hlen
  have hwide : ∀ i n, i + n ≤ bytes.length → leNat (slice bytes i n) < 256 ^ n := by
    intro i n hfits
    have hlt := leNat_lt (slice bytes i n)
    rwa [slice_length hfits] at hlt
  have hid_lt := hwide 12 8 (by omega)
  have hbytes_lt := hwide 24 8 (by omega)
  have hcrc_lt := hwide 32 4 (by omega)
  rw [← hpow] at hid_lt hbytes_lt
  rw [← slice_zero] at hmagic hcrc
  -- the first 60 bytes are the fields, the last four their checksum
  have hfields := (slice_eq_markerFields hlen hid_lt hvalid hbytes_lt hcrc_lt).2
    ⟨hmagic, hversion, hheader, rfl, hformat, hreserved, rfl, rfl, hflags, rfl, rfl, hreserved2⟩
  have hchecksum := (slice_eq_leBytes_iff (by omega) (crc32_lt _)).2 hcrc
  refine ⟨⟨hid, hformat⟩, encodeCommitMarker_eq_ok.2 ⟨Nat.pos_of_ne_zero hpos, hvalid, ?_⟩⟩
  dsimp only
  rw [markerBytes, ← hfields, ← hchecksum, ← Nat.zero_add 60, slice_append_slice, slice_self hlen]

/-- **The marker codec and its checksum**: the two directions of the codec are inverse to each other, the hasher is
the bitwise CRC-32 however the bytes are cut into updates, and the publication and the verification have the
checksum of the bytes that they bind however short their reads are. -/
theorem markerCodec_inverse_and_checksum :
    (∀ generationId p bytes, generationId < u64Limit → p.Wide → encodeCommitMarker generationId p = .ok bytes →
      decodeCommitMarker bytes generationId = .ok ⟨generationId, appendLogFormatVersion, p⟩) ∧
    (∀ bytes generationId marker, decodeCommitMarker bytes generationId = .ok marker →
      (marker.generationId = generationId ∧ marker.logFormatVersion = appendLogFormatVersion) ∧
        encodeCommitMarker marker.generationId marker.committedPrefix = .ok bytes) ∧
    (∀ bytes, crc32Ieee bytes = crc32 bytes) ∧
    (∀ parts : List Bytes, (parts.foldl Crc32Ieee.update .new).finalize = crc32 parts.flatten) ∧
    (∀ offers file report, derivePrefixProofReading offers file report =
      if file.length < report.fileBytes then
        .error (.invalid
          s!"generation reached EOF with {report.fileBytes - file.length} proof bytes still expected")
      else if report.fileBytes < file.length then
        .error (.invalid "generation changed while its committed-prefix checksum was derived")
      else .ok ⟨report.fileBytes, crc32 file, report.recordCount, report.nextSequence⟩) ∧
    ∀ offers file proof report, verifyCommittedPrefixReading offers file proof = .ok report ↔
      proof.bytes ≤ file.length ∧ crc32 (file.take proof.bytes) = proof.crc32 ∧
        verifyLog (file.take proof.bytes) = .ok report ∧ report.recoverableTail = none ∧
        (report.fileBytes = proof.bytes ∧ report.validBytes = proof.bytes) ∧
        report.recordCount = proof.recordCount ∧ report.nextSequence = proof.nextSequence := by
  refine ⟨fun generationId p bytes hlt hwide hencode => ?_, fun _ _ _ h => decodeCommitMarker_eq_ok h, crc32Ieee_eq,
    fun parts => ?_, fun offers file report => ?_, fun offers file proof report => ?_⟩
  · obtain ⟨hpos, hvalid, rfl⟩ := encodeCommitMarker_eq_ok.1 hencode
    exact decodeCommitMarker_markerBytes hpos hlt hvalid hwide.bytes hwide.crc32
  · rw [Crc32Ieee.foldl_update, finalize_update_new]
  · rw [derivePrefixProofReading_eq]
    unfold derivePrefixProof
    split_ifs with hshort hlong
    · rfl
    · rfl
    · rw [List.take_of_length_le (not_lt.1 hlong)]
  · rw [verifyCommittedPrefixReading_eq, verifyCommittedPrefix_eq_ok]

end DbLab.Generation
