import DbLab.Record.Scan

/-!
# Incomplete last records

A tail `Continues` the log when some record that the encoder can write next starts with it. Every
such tail is accepted by the scan (`torn_of_start`). The converse fails for the tails that are
`Overlooked`: the scan looks at a length, at the header checksum and at the record checksum only when
the whole field is present, and never at the record checksum of an incomplete record.
-/

namespace DbLab.Record.RecordFormat

variable {σ : Type} {fmt : RecordFormat} {apply : σ → Mutation → Except DbError σ} {m : Mutation}
  {c : Cursor σ} {tail : Bytes} {fileBytes fuel sequence offset : ℕ} {required : Option ℕ}

/-- A proper prefix of a record with the sequence number. -/
def Continues (fmt : RecordFormat) (sequence : ℕ) (tail : Bytes) : Prop :=
  ∃ m, Writable m ∧ m.sequence = sequence ∧ tail <+: fmt.mutationBytes m ∧
    tail.length < (fmt.mutationBytes m).length

/-- An accepted tail ends the loop. -/
theorem scanRecords_torn (h : fmt.Torn c.offset c.expectedSequence tail required)
    (hfile : fileBytes = c.offset + tail.length) :
    fmt.scanRecords apply fileBytes (fuel + 1) tail c =
      .ok (c.result fileBytes (some ⟨c.offset, tail.length, required⟩)) := by
  cases h with
  | header hne hlen hvalid =>
    rw [scanRecords, if_neg hne, if_pos hlen, hvalid]
    rfl
  | payload metadata hlen hparse hend hshort =>
    have hne : tail ≠ [] := by
      rintro rfl
      rw [recordHeaderLen, List.length_nil] at hlen
      omega
    rw [scanRecords, if_neg hne, if_neg (not_lt.2 hlen)]
    dsimp only
    rw [hparse]
    simp only [Checked.ok_bind]
    rw [checkedAdd_eq_ok.2 ⟨hend, rfl⟩]
    simp only [Checked.ok_bind]
    rw [if_pos (by omega)]

/-! ### The records that the encoder writes -/

/-- The bytes of a record up to the end of its fields. -/
theorem mutationBytes_eq : ∃ payload, fmt.mutationBytes m =
    fmt.headerPrefix m.kind m.sequence m.key.length m.valueBytes.length ++ payload ∧
      payload.length = 4 + (m.key.length + m.valueBytes.length) := by
  refine ⟨_, rfl, ?_⟩
  rw [List.length_append, List.length_append, leBytes_length]

/-- **A prefix of a record is accepted.** -/
theorem torn_of_start (hm : Writable m) (hlt : m.sequence < u64Limit) (hne : tail ≠ [])
    (hpre : tail <+: fmt.mutationBytes m) (hshort : tail.length < (fmt.mutationBytes m).length)
    (hend : offset + (fmt.mutationBytes m).length < u64Limit) :
    fmt.Torn offset m.sequence tail
      (if tail.length < recordHeaderLen then none else some (fmt.mutationBytes m).length) := by
  obtain ⟨payload, hbytes, hpayload⟩ := @mutationBytes_eq fmt m
  split_ifs with hlen
  · refine .header hne hlen ?_
    rw [hbytes, prefix_append_iff headerPrefix_length] at hpre
    have hhead := hpre.1
    rw [headerPrefix_prefix_iff, headerFields_prefix_iff] at hhead
    obtain ⟨⟨h16, hkey, hvalue⟩, hcrc⟩ := hhead
    rw [validatePartialHeader_eq_ok]
    have hkeyEq (h : 20 ≤ tail.length) : leNat (slice tail 16 4) = m.key.length :=
      (slice_prefix_leBytes (by omega) hm.lt.1).1 hkey
    refine ⟨⟨m.kind, h16, fun h => ?_⟩, fun h => ?_, fun h => ?_⟩
    · rw [hkeyEq (by omega), (slice_prefix_leBytes (by omega) hm.lt.2).1 hvalue]
      exact hm
    · rw [hkeyEq h]
      exact hm.1
    · rw [(slice_prefix_leBytes (by omega) (crc32_lt _)).1 hcrc]
      have h24 : tail.take 24 <+: fmt.headerFields m.kind m.sequence m.key.length
          m.valueBytes.length := headerFields_prefix_iff.2 ⟨h16, hkey, hvalue⟩
      rw [h24.eq_of_length (by rw [headerFields_length, List.length_take]; omega)]
  · obtain ⟨rest, hrest⟩ := hpre
    have hparse := @parse_mutationBytes fmt m [] offset hm hlt
    have htake : (fmt.mutationBytes m ++ []).take recordHeaderLen = tail.take recordHeaderLen := by
      rw [List.append_nil, ← hrest, List.take_append_of_le_length (not_lt.1 hlen)]
    rw [htake] at hparse
    exact .payload _ (not_lt.1 hlen) hparse hend hshort

/-! ### What the scan does not look at -/

/-- The lengths that a header declares, as far as their bytes are present. -/
def DeclaresAdmissible (kind : RecordKind) (tail : Bytes) : Prop :=
  Admissible kind (leNat (slice tail 16 4)) (leNat (slice tail 20 4))

instance {kind : RecordKind} : Decidable (DeclaresAdmissible kind tail) :=
  inferInstanceAs (Decidable (Admissible ..))

/-- What the scan lets pass in a tail whose first sixteen bytes are right. -/
inductive Overlooked (fmt : RecordFormat) (offset sequence : ℕ) (tail : Bytes) : Prop
  /-- The tail ends inside the lengths, and the bytes that are present are too large already. -/
  | lengths (kind : RecordKind) (hstart : tail.take 16 <+: fmt.headerStart kind sequence)
      (hlen : tail.length < 24)
      (hkey : 20 ≤ tail.length → leNat (slice tail 16 4) ≤ maxKeyBytes)
      (hbad : ¬ DeclaresAdmissible kind tail)
  /-- The tail ends inside the header checksum, and the bytes that are present are wrong. -/
  | headerChecksum (kind : RecordKind) (hstart : tail.take 16 <+: fmt.headerStart kind sequence)
      (hlen : 24 ≤ tail.length ∧ tail.length < 28) (hadm : DeclaresAdmissible kind tail)
      (hbad : ¬ slice tail 24 4 <+: leBytes 4 (crc32 (tail.take 24)))
  /-- The tail ends behind the header checksum, and no key and value of the declared lengths give
  the bytes of the record checksum and of the payload that are present. -/
  | recordChecksum (kind : RecordKind) (keyLen valueLen : ℕ) (hadm : Admissible kind keyLen valueLen)
      (hheader : tail.take 28 = fmt.headerPrefix kind sequence keyLen valueLen)
      (hlen : tail.length < recordHeaderLen + (keyLen + valueLen))
      (hend : recordHeaderLen ≤ tail.length →
        offset + (recordHeaderLen + (keyLen + valueLen)) < u64Limit)
      (hbad : ∀ key value, key.length = keyLen → value.length = valueLen →
        ¬ tail <+: fmt.recordBytes kind sequence key value)

/-- The fields of a tail in front of its checksums. -/
theorem take_prefix_headerFields {kind : RecordKind}
    (hstart : tail.take 16 <+: fmt.headerStart kind sequence) :
    tail.take 24 <+: fmt.headerFields kind sequence (leNat (slice tail 16 4))
      (leNat (slice tail 20 4)) := by
  have hslice (i : ℕ) : slice tail i 4 <+: leBytes 4 (leNat (slice tail i 4)) :=
    prefix_leBytes (by rw [slice, List.length_take]; omega)
  exact headerFields_prefix_iff.2 ⟨hstart, hslice 16, hslice 20⟩

/-- A tail that goes on behind a right header. -/
theorem continues_of_headerPrefix {kind : RecordKind} {keyLen valueLen : ℕ}
    (hadm : Admissible kind keyLen valueLen)
    (h : tail <+: fmt.headerPrefix kind sequence keyLen valueLen) : fmt.Continues sequence tail := by
  obtain ⟨m, hkind, hseq, hkey, hvalue⟩ := Mutation.exists_fields kind sequence
    (List.replicate keyLen 0) (List.replicate valueLen 0) fun hk => by rw [hadm.2.2 hk]; rfl
  have hk : m.key.length = keyLen := by rw [hkey, List.length_replicate]
  have hv : m.valueBytes.length = valueLen := by rw [hvalue, List.length_replicate]
  obtain ⟨payload, hbytes, hpayload⟩ := @mutationBytes_eq fmt m
  rw [hkind, hseq, hk, hv] at hbytes
  refine ⟨m, by rw [Writable, hkind, hk, hv]; exact hadm, hseq, ?_, ?_⟩
  · rw [hbytes]
    exact h.trans (List.prefix_append _ _)
  · have := h.length_le
    rw [headerPrefix_length] at this
    rw [mutationBytes_length]
    omega

/-- A tail with a right header that no payload completes. -/
theorem continues_or_overlooked {kind : RecordKind} {keyLen valueLen : ℕ}
    (hadm : Admissible kind keyLen valueLen)
    (hheader : tail.take 28 = fmt.headerPrefix kind sequence keyLen valueLen)
    (hlen : tail.length < recordHeaderLen + (keyLen + valueLen))
    (hend : recordHeaderLen ≤ tail.length →
      offset + (recordHeaderLen + (keyLen + valueLen)) < u64Limit)
    (hno : ¬ fmt.Overlooked offset sequence tail) : fmt.Continues sequence tail := by
  by_contra hcont
  refine hno (.recordChecksum kind keyLen valueLen hadm hheader hlen hend ?_)
  intro key value hk hv hpre
  obtain ⟨m, hkind, hseq, hkey, hvalue⟩ := Mutation.exists_fields kind sequence key value
    fun h => List.length_eq_zero_iff.1 (hv.trans (hadm.2.2 h))
  refine hcont ⟨m, ?_, hseq, ?_, ?_⟩
  · rw [Writable, hkind, hkey, hvalue, hk, hv]
    exact hadm
  · rw [mutationBytes, hkind, hseq, hkey, hvalue]
    exact hpre
  · rw [mutationBytes_length, hkey, hvalue, hk, hv]
    exact hlen

/-- The fields of a header whose first sixteen bytes are right. -/
theorem take_eq_headerFields {kind : RecordKind}
    (hstart : tail.take 16 <+: fmt.headerStart kind sequence) (hlen : 24 ≤ tail.length) :
    tail.take 24 = fmt.headerFields kind sequence (leNat (slice tail 16 4))
      (leNat (slice tail 20 4)) :=
  (take_prefix_headerFields hstart).eq_of_length
    (by rw [headerFields_length, List.length_take]; omega)

/-- **An accepted tail continues the log** unless it is one of those that the scan overlooks. -/
theorem Torn.continues (h : fmt.Torn offset sequence tail required)
    (hno : ¬ fmt.Overlooked offset sequence tail) : fmt.Continues sequence tail := by
  cases h with
  | header hne hlen hvalid =>
    obtain ⟨⟨kind, hstart, h24⟩, h20, h28⟩ := validatePartialHeader_eq_ok.1 hvalid
    have hadm : DeclaresAdmissible kind tail := by
      by_cases hlong : 24 ≤ tail.length
      · exact h24 hlong
      · by_contra hbad
        exact hno (.lengths kind hstart (not_le.1 hlong) h20 hbad)
    by_cases hlong : 28 ≤ tail.length
    · refine continues_or_overlooked hadm ?_ (by omega) (fun h => absurd hlen (not_lt.2 h)) hno
      have hfields := take_eq_headerFields hstart (by omega)
      rw [headerPrefix, ← hfields, ← h28 hlong, ← slice_eq_leBytes (by omega), take_append_slice]
    · refine continues_of_headerPrefix hadm ?_
      rw [← List.take_of_length_le (l := tail) (i := 28) (by omega), headerPrefix_prefix_iff,
        List.take_of_length_le (l := tail) (i := 28) (by omega)]
      refine ⟨take_prefix_headerFields hstart, ?_⟩
      by_cases hcrc : 24 ≤ tail.length
      · rw [← take_eq_headerFields hstart hcrc]
        by_contra hbad
        exact hno (.headerChecksum kind hstart ⟨hcrc, by omega⟩ hadm hbad)
      · rw [slice, List.drop_eq_nil_of_le (by omega)]
        exact List.nil_prefix
  | payload metadata hlen hparse hend hshort =>
    have hheader : (tail.take recordHeaderLen).length = 32 := by
      rw [List.length_take, recordHeaderLen] at *
      omega
    obtain ⟨hadm, -, h28, -, htotal, -⟩ := (parseRecordHeader_eq_ok hheader).1 hparse
    rw [List.take_take] at h28
    rw [htotal] at hend hshort
    exact continues_or_overlooked hadm h28 hshort (fun _ => hend) hno

/-- **An overlooked tail is accepted.** -/
theorem Overlooked.torn (h : fmt.Overlooked offset sequence tail) (hseq : sequence < u64Limit) :
    ∃ required, fmt.Torn offset sequence tail required := by
  cases h with
  | lengths kind hstart hlen hkey hbad =>
    refine ⟨none, .header ?_ (by rw [recordHeaderLen]; omega) ?_⟩
    · rintro rfl
      exact hbad (by cases kind <;> decide)
    · exact validatePartialHeader_eq_ok.2
        ⟨⟨kind, hstart, fun h => absurd hlen (not_lt.2 h)⟩, hkey, fun h => absurd hlen (by omega)⟩
  | headerChecksum kind hstart hlen hadm hbad =>
    refine ⟨none, .header ?_ (by rw [recordHeaderLen]; omega) ?_⟩
    · rintro rfl
      simp at hlen
    · exact validatePartialHeader_eq_ok.2
        ⟨⟨kind, hstart, fun _ => hadm⟩, fun _ => hadm.1, fun h => absurd hlen.2 (not_lt.2 h)⟩
  | recordChecksum kind keyLen valueLen hadm hheader hlen hend hbad =>
    have h28 : 28 ≤ tail.length := by
      have := congrArg List.length hheader
      rw [headerPrefix_length, List.length_take] at this
      omega
    have hlt : sequence < 256 ^ 8 := by
      rw [u64Limit_eq] at hseq
      omega
    -- A header that is cut is checked in part only, and a whole one is followed by a cut payload.
    by_cases hshort : tail.length < recordHeaderLen
    · refine ⟨none, .header ?_ hshort ?_⟩
      · rintro rfl
        simp at h28
      · have hpre : tail.take 28 <+: fmt.headerPrefix kind sequence keyLen valueLen :=
          ⟨[], by rw [List.append_nil, hheader]⟩
        have hstart : tail.take 16 <+: fmt.headerStart kind sequence :=
          (headerFields_prefix_iff.1 (headerPrefix_prefix_iff.1 hpre).1).1
        rw [take_eq_headerPrefix_iff h28 hlt hadm.lt.1 hadm.lt.2] at hheader
        obtain ⟨-, -, -, -, -, h16, h20, h24⟩ := hheader
        refine validatePartialHeader_eq_ok.2 ⟨⟨kind, hstart, fun _ => ?_⟩, fun _ => ?_, fun _ => h24⟩
        · rw [h16, h20]
          exact hadm
        · rw [h16]
          exact hadm.1
    · rw [not_lt] at hshort
      refine ⟨_, .payload ⟨kind, sequence, keyLen, valueLen, recordHeaderLen + (keyLen + valueLen),
        leNat (slice (tail.take recordHeaderLen) 28 4)⟩ hshort ?_ (hend hshort) hlen⟩
      have hlen32 : (tail.take recordHeaderLen).length = 32 := by
        rw [List.length_take, min_eq_left hshort]
        rfl
      rw [parseRecordHeader_eq_ok hlen32, List.take_take]
      exact ⟨hadm, hlt, hheader, rfl, rfl, rfl⟩

/-- **No record starts with an overlooked tail.** -/
theorem Overlooked.not_continues (h : fmt.Overlooked offset sequence tail)
    (hseq : sequence < u64Limit) : ¬ fmt.Continues sequence tail := by
  rintro ⟨m, hm, rfl, hpre, -⟩
  obtain ⟨payload, hbytes, -⟩ := @mutationBytes_eq fmt m
  rw [hbytes, prefix_append_iff headerPrefix_length] at hpre
  have hhead := hpre.1
  rw [headerPrefix_prefix_iff, headerFields_prefix_iff] at hhead
  obtain ⟨⟨hstart', hkey', hvalue'⟩, hcrc'⟩ := hhead
  have hlt : m.sequence < 256 ^ 8 := by
    rw [u64Limit_eq] at hseq
    omega
  -- A tail that reaches the kind has the kind of the record.
  have hkind {kind : RecordKind} (hstart : tail.take 16 <+: fmt.headerStart kind m.sequence)
      (hlen : 6 ≤ tail.length) : kind = m.kind := by
    have h1 := (headerStart_prefix_iff.1 hstart).2.2.1 hlen
    rw [(headerStart_prefix_iff.1 hstart').2.2.1 hlen] at h1
    cases hk : m.kind <;> cases kind <;> simp_all [RecordKind.encoded]
  cases h with
  | lengths kind hstart hlen hkey hbad =>
    have hk := leNat_le_of_prefix hkey'
    have hv := leNat_le_of_prefix hvalue'
    rw [leNat_leBytes hm.lt.1] at hk
    rw [leNat_leBytes hm.lt.2] at hv
    refine hbad ⟨hk.trans hm.1, hv.trans hm.2.1, fun hdelete => ?_⟩
    by_cases h6 : 6 ≤ tail.length
    · have := hm.2.2 (hkind hstart h6 ▸ hdelete)
      omega
    · rw [slice, List.drop_eq_nil_of_le (by omega)]
      rfl
  | headerChecksum kind hstart hlen hadm hbad =>
    have h24 : tail.take 24 = fmt.headerFields m.kind m.sequence m.key.length m.valueBytes.length :=
      (headerFields_prefix_iff.2 ⟨hstart', hkey', hvalue'⟩).eq_of_length
        (by rw [headerFields_length, List.length_take]; omega)
    rw [h24] at hbad
    exact hbad hcrc'
  | recordChecksum kind keyLen valueLen hadm hheader hlen hend hbad =>
    have h28 : 28 ≤ tail.length := by
      have := congrArg List.length hheader
      rw [headerPrefix_length, List.length_take] at this
      omega
    have hrecord : tail.take 28 = fmt.headerPrefix m.kind m.sequence m.key.length
        m.valueBytes.length :=
      hpre.1.eq_of_length (by rw [headerPrefix_length, List.length_take]; omega)
    have hsame := (take_eq_headerPrefix_iff h28 hlt hadm.lt.1 hadm.lt.2).1 hheader
    have hrec := (take_eq_headerPrefix_iff h28 hlt hm.lt.1 hm.lt.2).1 hrecord
    have hk : m.key.length = keyLen := hrec.2.2.2.2.2.1.symm.trans hsame.2.2.2.2.2.1
    have hv : m.valueBytes.length = valueLen :=
      hrec.2.2.2.2.2.2.1.symm.trans hsame.2.2.2.2.2.2.1
    have hkd : kind = m.kind := by
      have h5 := hsame.2.2.1
      rw [hrec.2.2.1] at h5
      cases hk : m.kind <;> cases kind <;> simp_all [RecordKind.encoded]
    refine hbad m.key m.valueBytes hk hv ?_
    rw [hkd, ← mutationBytes, hbytes, prefix_append_iff headerPrefix_length]
    exact hpre

end DbLab.Record.RecordFormat
