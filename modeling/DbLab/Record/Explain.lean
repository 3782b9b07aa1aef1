import DbLab.Record.Append

/-!
# What a scan says about a file

`Reports` is the result of a scan of a file that was cut, `Explains` the reading of a result on any
file: the valid prefix is the header and the encodings of the returned records, and what is behind it
continues the log. `explains_iff` says on which files a scan can be read so.
-/

namespace DbLab.Record.RecordFormat

variable {σ : Type} {fmt : RecordFormat} {apply : σ → Mutation → Except DbError σ}
  {ms : List Mutation} {header file tail : Bytes} {start first cut n k : ℕ} {r : ScanResult σ}
  {values : σ} {required : Option ℕ}

/-! ### Files that were cut -/

/-- The first `k` records lie completely before the cut, and no others. -/
structure CutAt (fmt : RecordFormat) (start : ℕ) (ms : List Mutation) (cut k : ℕ) : Prop where
  le_length : k ≤ ms.length
  before : fmt.recordStart start ms k ≤ cut
  after : k < ms.length → cut < fmt.recordStart start ms (k + 1)

/-- The report on a file that was cut behind `k` records: an incomplete tail if and only if the cut is
strictly inside a record, and the start of that record as the valid prefix. -/
structure Reports (fmt : RecordFormat) (start first : ℕ) (ms : List Mutation) (cut k : ℕ)
    (r : ScanResult σ) : Prop where
  validBytes : r.validBytes = fmt.recordStart start ms k
  recordCount : r.recordCount = k
  nextSequence : r.nextSequence = first + k
  tail_iff : r.recoverableTail.isSome ↔ k < ms.length ∧ fmt.recordStart start ms k < cut
  tail_eq : ∀ t ∈ r.recoverableTail, t.recordOffset = fmt.recordStart start ms k ∧
    t.availableBytes = cut - fmt.recordStart start ms k

theorem recordStart_succ {m : Mutation} (hm : ms[k]? = some m) :
    fmt.recordStart start ms (k + 1) = fmt.recordStart start ms k + (fmt.mutationBytes m).length := by
  rw [recordStart, recordStart, List.take_add_one, hm, recordsBytes_append, List.length_append,
    Nat.add_assoc]
  simp

/-- The numbers of a cut. -/
theorem Cut.numbers (h : fmt.Cut ms n k tail) :
    fmt.CutAt start ms (start + n) k ∧
      (tail ≠ [] ↔ k < ms.length ∧ fmt.recordStart start ms k < start + n) ∧
      (tail ≠ [] → tail.length = start + n - fmt.recordStart start ms k) := by
  obtain ⟨hle, htake, htail⟩ := h
  have hlen := congrArg List.length htake
  rw [List.length_take, List.length_append] at hlen
  by_cases hk : k < ms.length
  · obtain ⟨m, hm⟩ : ∃ m, ms[k]? = some m := ⟨_, List.getElem?_eq_getElem hk⟩
    have hsucc := @recordStart_succ fmt ms start _ _ hm
    have hpos := @mutationBytes_length fmt m
    have hwhole : fmt.recordStart 0 ms (k + 1) ≤ (fmt.recordsBytes ms).length := by
      have hsplit := congrArg (fun l => (fmt.recordsBytes l).length) (List.take_append_drop (k + 1) ms)
      simp only [recordsBytes_append, List.length_append] at hsplit
      rw [recordStart]
      omega
    have hsucc0 := @recordStart_succ fmt ms 0 _ _ hm
    have hshort : tail.length < (fmt.mutationBytes m).length := by
      rcases htail with rfl | ⟨m', hm', -, hlt⟩
      · rw [List.length_nil]
        omega
      · rw [hm, Option.some.injEq] at hm'
        rwa [hm']
    simp only [recordStart] at *
    have hn : n = (fmt.recordsBytes (ms.take k)).length + tail.length := by omega
    refine ⟨⟨hle, by rw [recordStart]; omega, fun _ => by rw [recordStart]; omega⟩, ?_, fun _ => by omega⟩
    rw [← List.length_pos_iff]
    constructor
    · intro h
      exact ⟨hk, by omega⟩
    · rintro ⟨-, h⟩
      omega
  · have hkeq : ms.take k = ms := List.take_of_length_le (not_lt.1 hk)
    have hnil : tail = [] := by
      rcases htail with h | ⟨m, hm, -⟩
      · exact h
      · exact absurd (List.getElem?_eq_some_iff.1 hm).1 hk
    subst hnil
    rw [hkeq, List.length_nil] at hlen
    refine ⟨⟨hle, ?_, fun h => absurd h hk⟩, ?_, fun h => absurd rfl h⟩
    · rw [recordStart, hkeq]
      omega
    · exact iff_of_false (fun h => h rfl) fun h => hk h.1

/-- **The result of the scan of a cut file.** -/
theorem Cut.reports (h : fmt.Cut ms n k tail) (fileBytes : ℕ) (v : σ) :
    Reports fmt start first ms (start + n) k
      { fileBytes := fileBytes
        validBytes := fmt.recordStart start ms k
        recordCount := k
        nextSequence := first + k
        recoverableTail := fmt.cutTail start ms k tail
        values := v } := by
  obtain ⟨-, htail, hlen⟩ := @numbers fmt ms tail start n k h
  refine ⟨rfl, rfl, rfl, ?_, ?_⟩
  · rw [← htail]
    dsimp only
    rw [cutTail]
    by_cases hnil : tail = []
    · simp [hnil]
    · simp [hnil]
  · intro t ht
    dsimp only at ht
    rw [cutTail] at ht
    by_cases hnil : tail = []
    · rw [if_pos hnil] at ht
      cases ht
    · rw [if_neg hnil, Option.mem_some] at ht
      subst ht
      exact ⟨rfl, hlen hnil⟩

/-! ### Any file -/

/-- The file is the header, records with consecutive sequence numbers, and a tail. -/
structure Layout (fmt : RecordFormat) (header : Bytes) (first : ℕ) (file : Bytes) (ms : List Mutation)
    (tail : Bytes) : Prop where
  file_eq : file = header ++ (fmt.recordsBytes ms ++ tail)
  writable : ∀ m ∈ ms, Writable m
  consecutive : Consecutive first ms
  sequence_lt : first + ms.length < u64Limit
  length_lt : header.length + (fmt.recordsBytes ms).length < u64Limit

/-- The bytes before the valid prefix are the header and the canonical encodings of `ms`, and those
behind it are a proper prefix of a record that can be written next. -/
structure Explains (fmt : RecordFormat) (header : Bytes) (first : ℕ) (file : Bytes)
    (r : ScanResult σ) (ms : List Mutation) : Prop where
  valid : file.take r.validBytes = header ++ fmt.recordsBytes ms
  writable : ∀ m ∈ ms, Writable m
  consecutive : Consecutive first ms
  recordCount : r.recordCount = ms.length
  nextSequence : r.nextSequence = first + ms.length
  reported : r.recoverableTail.isSome ↔ file.drop r.validBytes ≠ []
  tail : file.drop r.validBytes = [] ∨ fmt.Continues r.nextSequence (file.drop r.validBytes)

theorem Layout.drop (h : Layout fmt header first file ms tail) :
    file.drop (header.length + (fmt.recordsBytes ms).length) = tail := by
  rw [h.file_eq, ← List.append_assoc, ← List.length_append, List.drop_left]

theorem Torn.ne_nil {offset sequence : ℕ} (h : fmt.Torn offset sequence tail required) : tail ≠ [] := by
  cases h with
  | header hne => exact hne
  | payload metadata hlen =>
    rintro rfl
    rw [recordHeaderLen, List.length_nil] at hlen
    omega

/-- **The scan of a file with an incomplete tail that it lets pass.** -/
theorem Layout.scan (h : Layout fmt header first file ms tail)
    (htorn : fmt.Torn (header.length + (fmt.recordsBytes ms).length) (first + ms.length) tail required)
    {v : σ} (hfold : ms.foldlM apply values = .ok v) :
    ∃ r, fmt.scanRecords apply file.length file.length (file.drop header.length)
        ⟨header.length, first, 0, values⟩ = .ok r ∧
      r.validBytes = header.length + (fmt.recordsBytes ms).length ∧
      r.nextSequence = first + ms.length := by
  have hpos := List.length_pos_iff.2 htorn.ne_nil
  have hcost := @length_le_recordsBytes fmt ms
  have hseq := h.sequence_lt
  have hlength : file.length = header.length + ((fmt.recordsBytes ms).length + tail.length) := by
    rw [h.file_eq, List.length_append, List.length_append]
  obtain ⟨fuel, hfuel⟩ : ∃ fuel, file.length = fuel + 1 + ms.length :=
    ⟨file.length - 1 - ms.length, by omega⟩
  have hdrop : file.drop header.length = fmt.recordsBytes ms ++ tail := by
    rw [h.file_eq, List.drop_left]
  have hrun := @scanRecords_append σ fmt apply ms ⟨header.length, first, 0, values⟩ tail file.length (fuel + 1)
    h.writable h.consecutive h.sequence_lt
    (by simp only; omega) (by rw [hlength, List.length_append]) h.length_lt
  rw [hfold, Checked.ok_bind, scanRecords_torn htorn (by simp only; omega), ← hfuel] at hrun
  rw [hdrop]
  exact ⟨_, hrun, rfl, rfl⟩

/-- **A scan can be read as it should** on the files that are not records followed by a tail that the
scan overlooks. -/
theorem explains_iff (happly : ∀ s m, ∃ s', apply s m = .ok s') (hfirst : first < u64Limit)
    (hheader : header.length < u64Limit) (hfile : file.take header.length = header) :
    (∀ r, fmt.scanRecords apply file.length file.length (file.drop header.length)
        ⟨header.length, first, 0, values⟩ = .ok r →
      ∃ ms, Explains fmt header first file r ms ∧ ms.foldlM apply values = .ok r.values) ↔
    ¬ ∃ ms tail, Layout fmt header first file ms tail ∧
      fmt.Overlooked (header.length + (fmt.recordsBytes ms).length) (first + ms.length) tail := by
  have hfold (ms : List Mutation) (s : σ) : ∃ v, ms.foldlM apply s = .ok v := by
    induction ms generalizing s with
    | nil => exact ⟨s, rfl⟩
    | cons m ms ih =>
      obtain ⟨s', hs'⟩ := happly s m
      obtain ⟨v, hv⟩ := ih s'
      exact ⟨v, by rw [List.foldlM_cons, hs']; exact hv⟩
  constructor
  · rintro h ⟨ms, tail, hlayout, hover⟩
    -- An overlooked tail is read as torn although the file goes on with it, so nothing explains it.
    obtain ⟨required, htorn⟩ := hover.torn hlayout.sequence_lt
    obtain ⟨v, hv⟩ := hfold ms values
    obtain ⟨r, hr, hvalid, hnext⟩ := hlayout.scan htorn hv
    obtain ⟨ms', hexp, -⟩ := h r hr
    have htail := hexp.tail
    rw [hvalid, hlayout.drop, hnext] at htail
    rcases htail with hnil | hcont
    · exact htorn.ne_nil hnil
    · exact hover.not_continues hlayout.sequence_lt hcont
  · intro hno r hr
    -- Back: the records that the scan has read are the explanation, and the tail does not go on.
    have hlen : header.length ≤ file.length := by
      have := congrArg List.length hfile
      rw [List.length_take] at this
      omega
    obtain ⟨ms, tail, hread⟩ := scanRecords_eq_ok (by rw [List.length_drop]; omega)
      (by rw [List.length_drop]; simp only; omega) hr
    have hlayout : Layout fmt header first file ms tail := by
      refine ⟨?_, hread.writable, hread.consecutive, ?_, ?_⟩
      · rw [← hread.rest_eq]
        conv_lhs => rw [← List.take_append_drop header.length file, hfile]
      · by_cases hms : ms = []
        · simpa [hms] using hfirst
        · exact hread.sequence_lt hms
      · by_cases hms : ms = []
        · simpa [hms] using hheader
        · exact hread.length_lt hms
    have hvalid : r.validBytes = header.length + (fmt.recordsBytes ms).length := hread.validBytes
    have hdrop : file.drop r.validBytes = tail := by rw [hvalid, hlayout.drop]
    refine ⟨ms, ⟨?_, hread.writable, hread.consecutive, ?_, hread.nextSequence, ?_, ?_⟩, hread.values⟩
    · rw [hvalid, hlayout.file_eq, ← List.append_assoc, ← List.length_append, List.take_left]
    · simpa using hread.recordCount
    · rw [hdrop]
      rcases hread.tail_ok with ⟨hnone, hnil⟩ | ⟨required, htorn, hsome⟩
      · simp [hnone, hnil]
      · simp [hsome, htorn.ne_nil]
    · rw [hdrop]
      rcases hread.tail_ok with ⟨-, hnil⟩ | ⟨required, htorn, -⟩
      · exact .inl hnil
      · refine .inr (htorn.continues fun hover => hno ⟨ms, tail, hlayout, ?_⟩)
        rwa [← hvalid, show first + ms.length = r.nextSequence from hread.nextSequence.symm]

end DbLab.Record.RecordFormat
