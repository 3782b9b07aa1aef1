import DbLab.Record.Tail

/-!
# Files that are cut

A cut through records that the encoder wrote leaves some records complete and a prefix of the next
one. The scan replays the complete records and reports the prefix (`scanRecords_cut`).
-/

namespace DbLab.Record.RecordFormat

variable {σ : Type} {fmt : RecordFormat} {apply : σ → Mutation → Except DbError σ}
  {ms : List Mutation} {c : Cursor σ} {tail : Bytes} {fuel n k : ℕ}

/-- Where record `k` starts behind the first `start` bytes. -/
def recordStart (fmt : RecordFormat) (start : ℕ) (ms : List Mutation) (k : ℕ) : ℕ :=
  start + (fmt.recordsBytes (ms.take k)).length

/-- The cut at `n` leaves `k` records and the bytes `tail` of the next. -/
structure Cut (fmt : RecordFormat) (ms : List Mutation) (n k : ℕ) (tail : Bytes) : Prop where
  le_length : k ≤ ms.length
  take_eq : (fmt.recordsBytes ms).take n = fmt.recordsBytes (ms.take k) ++ tail
  tail_ok : tail = [] ∨ ∃ m, ms[k]? = some m ∧ tail <+: fmt.mutationBytes m ∧
    tail.length < (fmt.mutationBytes m).length

theorem exists_cut (fmt : RecordFormat) (ms : List Mutation) (n : ℕ) :
    ∃ k tail, fmt.Cut ms n k tail := by
  induction ms generalizing n with
  | nil => exact ⟨0, [], le_rfl, by simp, .inl rfl⟩
  | cons m ms ih =>
    by_cases hn : n < (fmt.mutationBytes m).length
    · refine ⟨0, (fmt.mutationBytes m).take n, Nat.zero_le _, ?_, .inr ⟨m, rfl, ?_, ?_⟩⟩
      · rw [recordsBytes_cons, List.take_append_of_le_length hn.le]
        rfl
      · exact List.take_prefix _ _
      · rw [List.length_take, min_eq_left hn.le]
        exact hn
    · obtain ⟨k, tail, hle, htake, htail⟩ := ih (n - (fmt.mutationBytes m).length)
      refine ⟨k + 1, tail, Nat.succ_le_succ hle, ?_, htail⟩
      rw [recordsBytes_cons, List.take_append, List.take_of_length_le (not_lt.1 hn), htake,
        List.take_succ_cons, recordsBytes_cons, List.append_assoc]

theorem Consecutive.take {first : ℕ} (h : Consecutive first ms) (k : ℕ) :
    Consecutive first (ms.take k) :=
  (consecutive_append.1 (List.take_append_drop k ms ▸ h)).1

theorem Consecutive.getElem? {first : ℕ} {m : Mutation} (h : Consecutive first ms)
    (hm : ms[k]? = some m) : m.sequence = first + k := by
  induction ms generalizing first k with
  | nil => simp at hm
  | cons a ms ih =>
    cases k with
    | zero =>
      obtain rfl : a = m := by simpa using hm
      exact h.1
    | succ k =>
      rw [ih h.2 (by simpa using hm)]
      omega

theorem length_le_recordsBytes : 32 * ms.length ≤ (fmt.recordsBytes ms).length := by
  induction ms with
  | nil => simp
  | cons m ms ih =>
    rw [recordsBytes_cons, List.length_append, List.length_cons, mutationBytes_length]
    omega

theorem mutationBytes_cancel {m m' : Mutation} {rest rest' : Bytes} (hm : Writable m) (hm' : Writable m')
    (hlt : m.sequence < u64Limit) (hlt' : m'.sequence < u64Limit) (hseq : m.sequence = m'.sequence)
    (h : fmt.mutationBytes m ++ rest = fmt.mutationBytes m' ++ rest') : m = m' ∧ rest = rest' := by
  have hparse := @parse_mutationBytes fmt m rest 0 hm hlt
  rw [h, hseq, @parse_mutationBytes fmt m' rest' 0 hm' hlt', Except.ok.injEq] at hparse
  simp only [Metadata.mk.injEq] at hparse
  obtain ⟨hkind, -, hkey, hvalue, -⟩ := hparse
  have hpayload := @slice_payload fmt m rest
  rw [h, ← hkey, ← hvalue, slice_payload] at hpayload
  obtain ⟨hkeys, hvalues⟩ := List.append_inj hpayload hkey
  obtain rfl : m = m' := by
    cases m with
    | mk sequence key value =>
      cases m' with
      | mk sequence' key' value' =>
        simp only [Mutation.kind, Mutation.valueBytes] at hkind hseq hkeys hvalues
        subst hseq hkeys
        -- The kind tells a deletion from the write of an empty value.
        cases value <;> cases value' <;> simp_all
  exact ⟨rfl, List.append_cancel_left h⟩

/-- **Records are read back in one way only**: bytes that start with the records of `ms` and are the
records of `ms'` show that `ms'` starts with `ms`. -/
theorem prefix_of_recordsBytes {ms' : List Mutation} {first : ℕ} (hms : ∀ m ∈ ms, Writable m)
    (hms' : ∀ m ∈ ms', Writable m) (hseq : Consecutive first ms) (hseq' : Consecutive first ms')
    (hlt : first + ms.length ≤ u64Limit) (h : fmt.recordsBytes ms <+: fmt.recordsBytes ms') :
    ms <+: ms' := by
  induction ms generalizing ms' first with
  | nil => exact List.nil_prefix
  | cons m ms ih =>
    cases ms' with
    | nil =>
      have hlen := h.length_le
      rw [recordsBytes_cons, List.length_append, mutationBytes_length] at hlen
      simp at hlen
    | cons m' ms' =>
      obtain ⟨rest, hrest⟩ := h
      rw [recordsBytes_cons, recordsBytes_cons, List.append_assoc] at hrest
      rw [List.length_cons] at hlt
      obtain ⟨rfl, htail⟩ := mutationBytes_cancel (hms m List.mem_cons_self) (hms' m' List.mem_cons_self)
        (by rw [hseq.1]; omega) (by rw [hseq'.1]; omega) (hseq.1.trans hseq'.1.symm) hrest
      rw [List.cons_prefix_cons]
      exact ⟨rfl, ih (fun a ha => hms a (List.mem_cons_of_mem _ ha))
        (fun a ha => hms' a (List.mem_cons_of_mem _ ha)) hseq.2 hseq'.2 (by omega) ⟨rest, htail⟩⟩

/-- What the scan reports about a cut. -/
def cutTail (fmt : RecordFormat) (start : ℕ) (ms : List Mutation) (k : ℕ) (tail : Bytes) :
    Option TruncatedTail :=
  if tail = [] then none
  else some ⟨fmt.recordStart start ms k, tail.length,
    if tail.length < recordHeaderLen then none else ms[k]?.map fun m => (fmt.mutationBytes m).length⟩

/-- **The scan of records that are cut.** -/
theorem scanRecords_cut (hcut : fmt.Cut ms n k tail) (hms : ∀ m ∈ ms, Writable m)
    (hseq : Consecutive c.expectedSequence ms) (hlt : c.expectedSequence + ms.length < u64Limit)
    (hcount : c.recordCount + ms.length < u64Limit)
    (hend : c.offset + (fmt.recordsBytes ms).length < u64Limit)
    (hfuel : ((fmt.recordsBytes ms).take n).length ≤ fuel) :
    fmt.scanRecords apply (c.offset + ((fmt.recordsBytes ms).take n).length) fuel
        ((fmt.recordsBytes ms).take n) c =
      ((ms.take k).foldlM apply c.values >>= fun v => .ok (Cursor.result
        ⟨fmt.recordStart c.offset ms k, c.expectedSequence + k, c.recordCount + k, v⟩
        (c.offset + ((fmt.recordsBytes ms).take n).length)
        (fmt.cutTail c.offset ms k tail))) := by
  obtain ⟨hle, htake, htail⟩ := hcut
  have hk : (ms.take k).length = k := List.length_take_of_le hle
  have hsplit : fmt.recordsBytes ms = fmt.recordsBytes (ms.take k) ++ fmt.recordsBytes (ms.drop k) := by
    rw [← recordsBytes_append, List.take_append_drop]
  have hwhole := congrArg List.length hsplit
  rw [List.length_append] at hwhole
  have hcost := @length_le_recordsBytes fmt (ms.take k)
  rw [hk] at hcost
  rw [htake, List.length_append] at hfuel
  -- The whole records are read first, and the tail is what the scan goes on with.
  have hrun : fmt.scanRecords apply (c.offset + ((fmt.recordsBytes ms).take n).length) fuel
      ((fmt.recordsBytes ms).take n) c =
        ((ms.take k).foldlM apply c.values >>= fun v => fmt.scanRecords apply
          (c.offset + ((fmt.recordsBytes ms).take n).length) (fuel - k) tail
          ⟨fmt.recordStart c.offset ms k, c.expectedSequence + k, c.recordCount + k, v⟩) := by
    have h := @scanRecords_append σ fmt apply (ms.take k) c tail
      (c.offset + ((fmt.recordsBytes ms).take n).length) (fuel - k)
      (fun m hm => hms m (List.mem_of_mem_take hm)) (hseq.take k) (by omega) (by omega)
      (by rw [htake]) (by omega)
    rw [hk, Nat.sub_add_cancel (by omega)] at h
    rw [← htake] at h
    exact h
  rw [hrun]
  refine bind_congr fun v => ?_
  -- The tail is empty, or the front of the next record, which is then torn.
  rcases htail with rfl | ⟨m, hm, hpre, hshort⟩
  · rw [cutTail, if_pos rfl]
    cases fuel - k with
    | zero => rfl
    | succ fuel => rw [scanRecords, if_pos rfl]
  · by_cases hne : tail = []
    · subst hne
      rw [cutTail, if_pos rfl]
      cases fuel - k with
      | zero => rfl
      | succ fuel => rw [scanRecords, if_pos rfl]
    · have hpos : 0 < tail.length := List.length_pos_iff.2 hne
      have hmem := List.mem_of_getElem? hm
      have hmseq := hseq.getElem? hm
      have hklt : k < ms.length := (List.getElem?_eq_some_iff.1 hm).1
      have hdrop : ms.drop k = m :: ms.drop (k + 1) := by
        rw [List.drop_eq_getElem_cons hklt, (List.getElem?_eq_some_iff.1 hm).2]
      have hbound : (fmt.mutationBytes m).length ≤ (fmt.recordsBytes (ms.drop k)).length := by
        rw [hdrop, recordsBytes_cons, List.length_append]
        omega
      have htorn := @torn_of_start fmt m tail (fmt.recordStart c.offset ms k) (hms m hmem)
        (by omega) hne hpre hshort (by rw [recordStart]; omega)
      rw [hmseq] at htorn
      obtain ⟨fuel', hfuel'⟩ : ∃ f, fuel - k = f + 1 := ⟨fuel - k - 1, by omega⟩
      rw [hfuel', scanRecords_torn htorn (by rw [htake, List.length_append, recordStart, Nat.add_assoc]), cutTail,
        if_neg hne, hm]
      rfl

end DbLab.Record.RecordFormat
