import DbLab.Log.Quiet

/-!
# The compacted log

The live entries of a log, put into a new log one behind the other in the order of their keys. The new log
replays to the same entries, has one record for each, and is not larger than a log that they are live in: every
record of that log pays for at most one of them.
-/

namespace DbLab.Log

open Record RecordFormat

variable {entries done : Values} {values : Values} {ms : List Mutation} {m : Mutation} {n : ℕ}
  {engine : LogEngine} {key value : Bytes}

/-- One put for every entry, the first one under the sequence number `n`. -/
def compactedLog : ℕ → Values → List Mutation
  | _, [] => []
  | n, (key, value) :: entries => ⟨n, key, some value⟩ :: compactedLog (n + 1) entries

@[simp] theorem compactedLog_length : (compactedLog n entries).length = entries.length := by
  induction entries generalizing n with
  | nil => rfl
  | cons entry entries ih => rw [compactedLog, List.length_cons, ih, List.length_cons]

theorem compactedLog_concat : compactedLog n (entries ++ [(key, value)]) =
    compactedLog n entries ++ [⟨n + entries.length, key, some value⟩] := by
  induction entries generalizing n with
  | nil => rfl
  | cons entry entries ih =>
    have hlen : n + 1 + entries.length = n + (entry :: entries).length := by
      rw [List.length_cons]
      omega
    rw [List.cons_append, compactedLog, compactedLog, ih, hlen, List.cons_append]

/-- The puts append their entries to smaller ones. -/
theorem foldl_replay_compactedLog (hsorted : SortedBy Prod.fst (values ++ entries)) :
    (compactedLog n entries).foldl replay values = values ++ entries := by
  induction entries generalizing n values with
  | nil => rw [compactedLog, List.foldl_nil, List.append_nil]
  | cons entry entries ih =>
    have hstep : replay values ⟨n, entry.1, some entry.2⟩ = values ++ [entry] := by
      have happend := @upsertBy_append_right _ _ _ Prod.fst entry values []
        fun other hother => (sortedBy_append.1 hsorted).2.2 other hother entry List.mem_cons_self
      rw [List.append_nil] at happend
      exact happend
    rw [List.append_cons] at hsorted ⊢
    rw [compactedLog, List.foldl_cons, hstep, ih hsorted]

theorem replayAll_compactedLog (hsorted : SortedBy Prod.fst entries) :
    replayAll (compactedLog n entries) = entries := by
  have h := @foldl_replay_compactedLog entries [] n hsorted
  rw [List.nil_append] at h
  exact h

theorem sortedBy_replay (h : SortedBy Prod.fst values) : SortedBy Prod.fst (replay values m) := by
  unfold replay
  cases m.value with
  | none => exact h.removeBy
  | some value => exact h.upsertBy

theorem sortedBy_replayAll' (ms : List Mutation) : SortedBy Prod.fst (replayAll ms) := by
  induction ms using List.reverseRecOn with
  | nil => exact sortedBy_nil
  | append_singleton ms m ih =>
    rw [LogEngine.replayAll_append]
    exact sortedBy_replay ih

/-! ### The size -/

/-- The bytes of the records of the entries. -/
def entriesSize (entries : Values) : ℕ := (entries.map fun entry => 32 + (entry.1.length + entry.2.length)).sum

@[simp] theorem entriesSize_cons {entry : Bytes × Bytes} :
    entriesSize (entry :: entries) = 32 + (entry.1.length + entry.2.length) + entriesSize entries := by
  simp [entriesSize]

theorem recordsBytes_compactedLog :
    (recordFormat.recordsBytes (compactedLog n entries)).length = entriesSize entries := by
  induction entries generalizing n with
  | nil => rfl
  | cons entry entries ih =>
    rw [compactedLog, recordsBytes_cons, List.length_append, mutationBytes_length, ih, entriesSize_cons]
    rfl

theorem entriesSize_upsertBy (entry : Bytes × Bytes) (entries : Values) :
    entriesSize (upsertBy Prod.fst entry entries) ≤ entriesSize entries + (32 + (entry.1.length + entry.2.length)) := by
  induction entries with
  | nil => simp [upsertBy, entriesSize]
  | cons other entries ih =>
    rw [upsertBy]
    split_ifs
    · simp only [entriesSize_cons]
      omega
    · simp only [entriesSize_cons]
      omega
    · simp only [entriesSize_cons]
      omega

theorem entriesSize_filter (p : Bytes × Bytes → Bool) : entriesSize (entries.filter p) ≤ entriesSize entries := by
  induction entries with
  | nil => exact le_rfl
  | cons entry entries ih =>
    rw [List.filter_cons]
    split_ifs
    · simp only [entriesSize_cons]
      omega
    · simp only [entriesSize_cons]
      omega

/-- **Every record pays for the entry that it sets.** -/
theorem entriesSize_replayAll_le (ms : List Mutation) :
    entriesSize (replayAll ms) ≤ (recordFormat.recordsBytes ms).length := by
  induction ms using List.reverseRecOn with
  | nil => exact le_rfl
  | append_singleton ms m ih =>
    rw [LogEngine.replayAll_append, recordsBytes_append, List.length_append, recordsBytes_cons, recordsBytes_nil,
      List.append_nil, mutationBytes_length, replay, Mutation.valueBytes]
    cases m.value with
    | none =>
      have hle : entriesSize (removeBy Prod.fst m.key (replayAll ms)) ≤ entriesSize (replayAll ms) := entriesSize_filter _
      dsimp only
      omega
    | some value =>
      have hle := entriesSize_upsertBy (m.key, value) (replayAll ms)
      exact hle.trans (Nat.add_le_add_right ih _)

/-- The live entries are within the limits of keys and values. -/
theorem limits_of_replayAll (h : ∀ m ∈ ms, Writable m) :
    ∀ entry ∈ replayAll ms, entry.1.length ≤ maxKeyBytes ∧ entry.2.length ≤ maxValueBytes := by
  induction ms using List.reverseRecOn with
  | nil => exact fun _ hentry => absurd hentry List.not_mem_nil
  | append_singleton ms m ih =>
    obtain ⟨hms, hm⟩ := List.forall_mem_append.1 h
    replace hm := writable_iff.1 (List.forall_mem_singleton.1 hm)
    intro entry hentry
    rw [LogEngine.replayAll_append, replay] at hentry
    rw [Mutation.valueBytes] at hm
    cases hvalue : m.value with
    | none =>
      rw [hvalue] at hentry
      exact ih hms entry (mem_removeBy.1 hentry).1
    | some value =>
      rw [hvalue] at hentry hm
      rcases mem_of_mem_upsertBy hentry with rfl | hold
      · exact hm
      · exact ih hms entry hold

/-! ### Writing it -/

/-- A put that has room for its record. -/
theorem LogEngine.Holds.put_ok (h : engine.Holds ms) (hkey : key.length ≤ maxKeyBytes) (hvalue : value.length ≤ maxValueBytes)
    (hcount : 1 + (ms.length + 1) < u64Limit) (hsize : engine.log.file.length + (32 + (key.length + value.length)) < u64Limit) :
    ∃ previous engine', LogEngine.put key value engine = (.ok previous, engine') ∧
      engine'.Holds (ms ++ [⟨1 + ms.length, key, some value⟩]) := by
  obtain ⟨next, hprepare⟩ : ∃ next, engine.log.prepare recordFormat appendTexts .put key value = .ok next := by
    unfold Appender.prepare
    simp only [Checked.bind_eq_ok, checkedSucc_eq_ok, checkedAdd_eq_ok, encodeRecord_eq_ok, Except.ok.injEq]
    refine ⟨_, _, ⟨?_, rfl⟩, _, ⟨?_, rfl⟩, _, ⟨⟨hkey, hvalue, ?_⟩, rfl⟩, _, ⟨?_, rfl⟩, rfl⟩
    · rw [h.appended.nextSequence]
      omega
    · rw [h.appended.recordCount]
      omega
    · intro hdelete
      cases hdelete
    · rw [h.appended.acknowledged, recordBytes_length]
      exact hsize
  rcases h.perform (.put key value) with ⟨previous, engine', hput, hholds⟩ | ⟨e, hput⟩
  · rw [h.appended.nextSequence] at hholds
    exact ⟨previous, engine', hput, hholds⟩
  · -- The checks in front of the write pass, so it does not fail.
    have husable : LogEngine.ensureUsable engine = (.ok (), engine) := by
      simp [LogEngine.ensureUsable, Prog.reads, h.usable]
    have happend : LogEngine.append .put key value engine = (.ok (), { engine with log := next }) := by
      rw [LogEngine.append, Prog.bind_ok husable, Prog.get_bind, hprepare, Prog.ofExcept_ok_bind, h.appended.validate]
      rfl
    have hvalid : validateKeyValue key value = .ok () := validateKeyValue_eq_ok.2 ⟨hkey, hvalue⟩
    rw [LogEngine.perform, LogEngine.put, hvalid, Prog.ofExcept_ok_bind, Prog.get_bind, Prog.bind_ok happend] at hput
    cases hput

end DbLab.Log
