import DbLab.Lsm.MemTable

/-!
# The accounting of the memtables

A run of a set of memtables applies mutations and retires frozen tables. If the sequence numbers of the
applications increase, every table counts the bytes of its entries, and the tables ascend: each holds
sequence numbers above the last one of the table before it. The lookups, the overlay and the snapshots of
the oldest table are read off from that.
-/

namespace DbLab.Lsm

/-- The bytes that an entry takes: what `residentBytes` computes, if it fits. -/
def entryBytes (key : Bytes) (entry : VersionedEntry) : ℕ :=
  entryOverheadBytes + key.length + valueLength entry.value

theorem residentBytes_eq_ok {key : Bytes} (entry : VersionedEntry) {n : ℕ} :
    residentBytes key entry.value = .ok n ↔ entryBytes key entry < u64Limit ∧ n = entryBytes key entry := by
  unfold residentBytes entryBytes
  simp only [Checked.bind_eq_ok, checkedAdd_eq_ok]
  constructor
  · rintro ⟨_, ⟨-, rfl⟩, hlt, rfl⟩
    exact ⟨hlt, rfl⟩
  · rintro ⟨hlt, rfl⟩
    exact ⟨_, ⟨by omega, rfl⟩, hlt, rfl⟩

namespace MemTable

/-- The counter of a table is the sum of the sizes of its entries. -/
structure Counted (table : MemTable) : Prop where
  bytes : table.approximateBytes = table.entries.total entryBytes
  fits : table.approximateBytes < u64Limit

variable {table table' : MemTable} {sequence : ℕ} {key : Bytes} {value : Option Bytes}

theorem counted_empty : empty.Counted := ⟨rfl, by simp [empty, u64Limit]⟩

/-- The bytes of a resident entry are at most the counter. -/
theorem Counted.oldBytes (h : table.Counted) (key : Bytes) :
    ∃ old, table.oldBytes key = .ok old ∧ old = table.entries.sizeAt entryBytes key ∧
      old ≤ table.approximateBytes := by
  have hle : table.entries.sizeAt entryBytes key ≤ table.approximateBytes := by
    rw [h.bytes]
    exact SortedMap.sizeAt_le_total
  refine ⟨_, ?_, rfl, hle⟩
  unfold MemTable.oldBytes
  rw [SortedMap.sizeAt] at hle ⊢
  cases hfind : table.entries.find key with
  | none => rfl
  | some entry =>
    rw [hfind] at hle
    exact (residentBytes_eq_ok entry).2 ⟨hle.trans_lt h.fits, rfl⟩

/-- **An application keeps the count.** -/
theorem Counted.apply (h : table.Counted) (happly : table.apply sequence key value = .ok table') :
    table'.Counted := by
  unfold MemTable.apply at happly
  simp only [Checked.bind_eq_ok, failWhen_eq_ok, checkedAdd_eq_ok, Except.ok.injEq] at happly
  obtain ⟨_, -, newBytes, hnew, oldBytes, hold, _, -, bytes, ⟨hlt, rfl⟩, rfl⟩ := happly
  obtain ⟨old, hold', heq, hle⟩ := h.oldBytes key
  obtain rfl := Except.ok.inj (hold.symm.trans hold')
  obtain ⟨-, rfl⟩ := (residentBytes_eq_ok ⟨sequence, value⟩).1 hnew
  have hinsert : (table.entries.insert key ⟨sequence, value⟩).total entryBytes + table.entries.sizeAt entryBytes key =
      table.entries.total entryBytes + entryBytes key ⟨sequence, value⟩ := SortedMap.total_insert
  rw [← heq, ← h.bytes] at hinsert
  exact ⟨by dsimp only; omega, hlt⟩

/-- An application with a new sequence number fails only if the sum of the sizes would not fit. -/
theorem Counted.exists_apply (h : table.Counted) (hlast : ∀ last ∈ table.lastSequence, last < sequence) :
    (∃ table', table.apply sequence key value = .ok table') ↔
      (table.entries.insert key ⟨sequence, value⟩).total entryBytes < u64Limit := by
  constructor
  · rintro ⟨table', happly⟩
    obtain ⟨hbytes, hfits⟩ := h.apply happly
    rw [(apply_eq_ok happly).1] at hbytes
    omega
  · intro hlt
    obtain ⟨old, hold, heq, hle⟩ := h.oldBytes key
    have hinsert : (table.entries.insert key ⟨sequence, value⟩).total entryBytes + table.entries.sizeAt entryBytes key =
        table.entries.total entryBytes + entryBytes key ⟨sequence, value⟩ := SortedMap.total_insert
    rw [← heq, ← h.bytes] at hinsert
    have hfollows : ¬ (table.lastSequence.any fun last => sequence ≤ last) = true := by
      cases hlast' : table.lastSequence with
      | none => simp
      | some last => simpa using hlast last hlast'
    refine ⟨⟨table.entries.insert key ⟨sequence, value⟩,
      table.approximateBytes - old + entryBytes key ⟨sequence, value⟩, some sequence⟩, ?_⟩
    unfold MemTable.apply
    rw [(failWhen_eq_ok (u := ())).2 hfollows, Checked.ok_bind, (residentBytes_eq_ok ⟨sequence, value⟩).2 ⟨by omega, rfl⟩,
      Checked.ok_bind, hold, Checked.ok_bind, (failWhen_eq_ok (u := ())).2 (by omega), Checked.ok_bind,
      checkedAdd_eq_ok.2 ⟨by omega, rfl⟩, Checked.ok_bind]

end MemTable

/-! ### Tables in order -/

/-- Tables, oldest first, whose sequence numbers ascend up to a bound: the last sequence number of a table
is the largest one in it, and below those of all later tables. -/
structure MemTable.InOrder (bound : ℕ) (tables : List MemTable) : Prop where
  entries_le : ∀ table ∈ tables, ∀ key entry, table.entries.find key = some entry →
    ∃ last ∈ table.lastSequence, entry.sequence ≤ last
  last_lt : tables.Pairwise fun older newer => ∀ last ∈ older.lastSequence, ∀ key entry,
    newer.entries.find key = some entry → last < entry.sequence
  bounded : ∀ table ∈ tables, ∀ last ∈ table.lastSequence, last < bound

namespace MemTable

variable {table table' : MemTable} {tables : List MemTable} {sequence bound bound' : ℕ} {key : Bytes}
  {value : Option Bytes}

theorem InOrder.mono (h : InOrder bound tables) (hle : bound ≤ bound') : InOrder bound' tables :=
  ⟨h.entries_le, h.last_lt, fun table htable last hlast => (h.bounded table htable last hlast).trans_le hle⟩

theorem InOrder.concat_empty (h : InOrder bound tables) : InOrder bound (tables ++ [empty]) where
  entries_le := by
    intro table htable key entry hentry
    rcases List.mem_append.1 htable with htable | htable
    · exact h.entries_le table htable key entry hentry
    · rw [List.mem_singleton.1 htable] at hentry
      cases hentry
  last_lt := by
    refine List.pairwise_append.2 ⟨h.last_lt, List.pairwise_singleton _ _, fun older _ newer hnewer => ?_⟩
    rw [List.mem_singleton.1 hnewer]
    intro last _ key entry hentry
    cases hentry
  bounded := by
    intro table htable last hlast
    rcases List.mem_append.1 htable with htable | htable
    · exact h.bounded table htable last hlast
    · rw [List.mem_singleton.1 htable] at hlast
      cases hlast

theorem InOrder.tail (h : InOrder bound (table :: tables)) : InOrder bound tables :=
  ⟨fun t ht => h.entries_le t (List.mem_cons_of_mem _ ht), h.last_lt.of_cons,
    fun t ht => h.bounded t (List.mem_cons_of_mem _ ht)⟩

/-- **An application to the newest table keeps the order.** -/
theorem InOrder.apply (h : InOrder bound (tables ++ [table])) (hsequence : bound ≤ sequence)
    (happly : table.apply sequence key value = .ok table') : InOrder (sequence + 1) (tables ++ [table']) := by
  obtain ⟨hentries, hlast, hfollows⟩ := apply_eq_ok happly
  have hold : ∀ t ∈ tables, t ∈ tables ++ [table] := fun t ht => List.mem_append_left _ ht
  have hmem : table ∈ tables ++ [table] := List.mem_append_right _ (List.mem_singleton_self _)
  -- An entry of the new table is the applied one, or one of the old table.
  have hcases : ∀ k entry, table'.entries.find k = some entry →
      entry.sequence = sequence ∨ table.entries.find k = some entry := by
    intro k entry hentry
    rw [hentries, SortedMap.find_insert] at hentry
    split_ifs at hentry with hk
    · cases hentry
      exact .inl rfl
    · exact .inr hentry
  constructor
  · intro t ht k entry hentry
    rcases List.mem_append.1 ht with ht | ht
    · exact h.entries_le t (hold t ht) k entry hentry
    · rw [List.mem_singleton.1 ht] at hentry ⊢
      refine ⟨sequence, hlast, ?_⟩
      rcases hcases k entry hentry with heq | hentry
      · exact heq.le
      · obtain ⟨last, hmem', hle⟩ := h.entries_le table hmem k entry hentry
        exact hle.trans (hfollows last hmem').le
  · obtain ⟨holder, -, hnewest⟩ := List.pairwise_append.1 h.last_lt
    refine List.pairwise_append.2 ⟨holder, List.pairwise_singleton _ _, fun older hmem' newer hnewer => ?_⟩
    rw [List.mem_singleton.1 hnewer]
    intro last hlast' k entry hentry
    rcases hcases k entry hentry with heq | hentry
    · rw [heq]
      exact (h.bounded older (hold older hmem') last hlast').trans_le hsequence
    · exact hnewest older hmem' table (List.mem_singleton_self _) last hlast' k entry hentry
  · intro t ht last hlast'
    rcases List.mem_append.1 ht with ht | ht
    · have := h.bounded t (hold t ht) last hlast'
      omega
    · rw [List.mem_singleton.1 ht, hlast] at hlast'
      cases hlast'
      exact Nat.lt_succ_self _

theorem InOrder.layers (h : InOrder bound tables) : Ascending (tables.map MemTable.entries) := by
  rw [Ascending, List.pairwise_map]
  refine List.Pairwise.imp_of_mem (fun {older newer} holder _ hlt k v k' v' hv hv' => ?_) h.last_lt
  obtain ⟨last, hlast, hle⟩ := h.entries_le older holder k v hv
  exact hle.trans_lt (hlt last hlast k' v' hv')

end MemTable

/-! ### Runs -/

/-- A call on a set of memtables that changes it. -/
inductive MemTableCall
  | apply (sequence : ℕ) (key : Bytes) (value : Option Bytes)
  | retireOldestImmutable

/-- The sequence number of an application. -/
def MemTableCall.sequence : MemTableCall → Option ℕ
  | .apply sequence _ _ => some sequence
  | .retireOldestImmutable => none

namespace MemTableSet

/-- What a call returns. -/
def result (set : MemTableSet) : MemTableCall → Except DbError MemTableSet
  | .apply sequence key value => set.apply sequence key value
  | .retireOldestImmutable => set.retireOldestImmutable

/-- The set behind a call. A call that fails leaves it as it is: an application fails in the checks of the
mutable table, before anything is assigned (`apply_eq_error`). -/
def call (set : MemTableSet) (c : MemTableCall) : MemTableSet :=
  match set.result c with
  | .ok set' => set'
  | .error _ => set

def run (set : MemTableSet) (calls : List MemTableCall) : MemTableSet := calls.foldl call set

variable {set set' : MemTableSet} {sequence bound bound' limit : ℕ} {key : Bytes} {value : Option Bytes}
  {calls : List MemTableCall}

/-- A table is never frozen empty. -/
theorem apply_eq_error {e : DbError} (h : set.apply sequence key value = .error e) :
    set.mutable.apply sequence key value = .error e := by
  unfold apply at h
  cases htable : set.mutable.apply sequence key value with
  | error e' =>
    rw [htable, Checked.error_bind] at h
    cases h
    rfl
  | ok table =>
    rw [htable, Checked.ok_bind] at h
    split_ifs at h with hlimit hempty
    rw [(MemTable.apply_eq_ok htable).1] at hempty
    exact absurd hempty upsertBy_ne_nil

theorem exists_apply :
    (∃ set', set.apply sequence key value = .ok set') ↔ ∃ table, set.mutable.apply sequence key value = .ok table := by
  constructor
  · rintro ⟨set', happly⟩
    obtain ⟨table, htable, -⟩ := apply_eq_ok happly
    exact ⟨table, htable⟩
  · rintro ⟨table, htable⟩
    cases happly : set.apply sequence key value with
    | error e => cases htable.symm.trans (apply_eq_error happly)
    | ok set' => exact ⟨set', rfl⟩

/-- When an application freezes the mutable table. -/
theorem apply_freezes (h : set.apply sequence key value = .ok set') :
    ∃ table, set.mutable.apply sequence key value = .ok table ∧
      (set.mutableBytesLimit ≤ table.approximateBytes ∧
          set' = { set with mutable := .empty, immutable := set.immutable ++ [table] } ∨
        table.approximateBytes < set.mutableBytesLimit ∧ set' = { set with mutable := table }) := by
  unfold apply at h
  rw [Checked.bind_eq_ok] at h
  obtain ⟨table, htable, h⟩ := h
  refine ⟨table, htable, ?_⟩
  split_ifs at h with hlimit hempty
  · cases h
    exact .inl ⟨hlimit, rfl⟩
  · cases h
    exact .inr ⟨not_le.1 hlimit, rfl⟩

/-- What holds of a set between two calls, when all applications so far had sequence numbers below `bound`. -/
structure Accounted (set : MemTableSet) (bound : ℕ) : Prop where
  limit_pos : 0 < set.mutableBytesLimit
  counted : ∀ table ∈ set.tables, table.Counted
  ascending : MemTable.InOrder bound set.tables
  mutable_lt : set.mutable.approximateBytes < set.mutableBytesLimit
  frozen : ∀ table ∈ set.immutable, set.mutableBytesLimit ≤ table.approximateBytes ∧ table.lastSequence.isSome

theorem Accounted.mono (h : set.Accounted bound) (hle : bound ≤ bound') : set.Accounted bound' :=
  { h with ascending := h.ascending.mono hle }

theorem accounted_new (h : new limit = .ok set) : set.Accounted 0 := by
  rw [new, Checked.guard_eq_ok, Except.ok.injEq] at h
  obtain ⟨hlimit, rfl⟩ := h
  refine ⟨Nat.pos_of_ne_zero hlimit, ?_, ?_, Nat.pos_of_ne_zero hlimit, by simp⟩
  · intro table htable
    rw [List.mem_singleton.1 htable]
    exact MemTable.counted_empty
  · have hnone : MemTable.InOrder 0 [] := ⟨by simp, List.Pairwise.nil, by simp⟩
    exact hnone.concat_empty

/-- **One application.** -/
theorem Accounted.apply (h : set.Accounted bound) (hsequence : bound ≤ sequence)
    (happly : set.apply sequence key value = .ok set') : set'.Accounted (sequence + 1) := by
  obtain ⟨table, htable, hcases⟩ := apply_freezes happly
  have hmutable : set.mutable ∈ set.tables := List.mem_append_right _ (List.mem_singleton_self _)
  have hcounted : ∀ t ∈ set.immutable ++ [table], t.Counted := by
    intro t ht
    rcases List.mem_append.1 ht with ht | ht
    · exact h.counted t (List.mem_append_left _ ht)
    · rw [List.mem_singleton.1 ht]
      exact (h.counted _ hmutable).apply htable
  have hascending := h.ascending.apply hsequence htable
  rcases hcases with ⟨hlimit, rfl⟩ | ⟨hlimit, rfl⟩
  · refine ⟨h.limit_pos, ?_, hascending.concat_empty, h.limit_pos, ?_⟩
    · intro t ht
      rcases List.mem_append.1 ht with ht | ht
      · exact hcounted t ht
      · rw [List.mem_singleton.1 ht]
        exact MemTable.counted_empty
    · intro t ht
      rcases List.mem_append.1 ht with ht | ht
      · exact h.frozen t ht
      · rw [List.mem_singleton.1 ht, (MemTable.apply_eq_ok htable).2.1]
        exact ⟨hlimit, rfl⟩
  · exact ⟨h.limit_pos, hcounted, hascending, hlimit, h.frozen⟩

/-- **One retirement.** -/
theorem Accounted.retire (h : set.Accounted bound) (hretire : set.retireOldestImmutable = .ok set') :
    set'.Accounted bound := by
  unfold retireOldestImmutable at hretire
  split at hretire
  · cases hretire
  · next table rest himmutable =>
    cases hretire
    have hcounted := h.counted
    have hascending := h.ascending
    have hfrozen := h.frozen
    rw [tables, himmutable, List.cons_append] at hcounted hascending
    rw [himmutable] at hfrozen
    exact ⟨h.limit_pos, fun t ht => hcounted t (List.mem_cons_of_mem _ ht), hascending.tail, h.mutable_lt,
      fun t ht => hfrozen t (List.mem_cons_of_mem _ ht)⟩

/-- **One call of a run.** -/
theorem Accounted.call (h : set.Accounted bound) {c : MemTableCall} (hlow : ∀ sequence ∈ c.sequence, bound ≤ sequence)
    (hle : bound ≤ bound') (hhigh : ∀ sequence ∈ c.sequence, sequence < bound') : (set.call c).Accounted bound' := by
  unfold MemTableSet.call
  cases hresult : set.result c with
  | error e => exact h.mono hle
  | ok set' =>
    cases c with
    | apply sequence key value => exact (h.apply (hlow sequence rfl) hresult).mono (hhigh sequence rfl)
    | retireOldestImmutable => exact (h.retire hresult).mono hle

/-- **A run** with increasing sequence numbers from `bound` on, all below `bound'`. -/
theorem Accounted.run (h : set.Accounted bound) (hincreasing : (calls.filterMap MemTableCall.sequence).Pairwise (· < ·))
    (hlow : ∀ sequence ∈ calls.filterMap MemTableCall.sequence, bound ≤ sequence) (hle : bound ≤ bound')
    (hhigh : ∀ sequence ∈ calls.filterMap MemTableCall.sequence, sequence < bound') :
    (set.run calls).Accounted bound' := by
  induction calls generalizing set bound with
  | nil => exact h.mono hle
  | cons c calls ih =>
    have hstep : set.run (c :: calls) = (set.call c).run calls := rfl
    rw [hstep]
    cases hsequence : c.sequence with
    | none =>
      rw [List.filterMap_cons_none hsequence] at hincreasing hlow hhigh
      exact ih (h.call (by simp [hsequence]) le_rfl (by simp [hsequence])) hincreasing hlow hle hhigh
    | some sequence =>
      rw [List.filterMap_cons_some hsequence] at hincreasing hlow hhigh
      obtain ⟨hlt, hincreasing⟩ := List.pairwise_cons.1 hincreasing
      obtain ⟨hfirst, -⟩ := List.forall_mem_cons.1 hlow
      obtain ⟨hlast, hhigh⟩ := List.forall_mem_cons.1 hhigh
      have hcall : (set.call c).Accounted (sequence + 1) :=
        h.call (by simpa [hsequence] using hfirst) (by omega) (by simp [hsequence])
      exact ih hcall hincreasing (fun s hs => hlt s hs) hlast hhigh

/-! ### The frozen tables during applications -/

/-- Applications add frozen tables at the end. -/
theorem run_immutable (set : MemTableSet) (hcalls : .retireOldestImmutable ∉ calls) :
    ∃ more, (set.run calls).immutable = set.immutable ++ more := by
  induction calls generalizing set with
  | nil => exact ⟨[], (List.append_nil _).symm⟩
  | cons c calls ih =>
    have hstep : set.run (c :: calls) = (set.call c).run calls := rfl
    rw [List.mem_cons, not_or] at hcalls
    obtain ⟨hc, hcalls⟩ := hcalls
    obtain ⟨more, hmore⟩ := ih (set.call c) hcalls
    rw [hstep, hmore]
    cases c with
    | retireOldestImmutable => exact absurd rfl hc
    | apply sequence key value =>
      unfold call
      cases hresult : set.result (.apply sequence key value) with
      | error e => exact ⟨more, rfl⟩
      | ok set' =>
        obtain ⟨table, -, ⟨-, rfl⟩ | ⟨-, rfl⟩⟩ := apply_freezes hresult
        · exact ⟨table :: more, by simp⟩
        · exact ⟨more, rfl⟩

/-- What a snapshot of the oldest frozen table is for: its entries are up to `durable`, which is below all
later tables, and after further applications the next retirement removes its table and nothing else. -/
structure OldestSnapshot (set : MemTableSet) (entries : VersionMap) (durable : ℕ) : Prop where
  le_durable : ∀ key entry, entries.find key = some entry → entry.sequence ≤ durable
  durable_lt : ∀ later ∈ set.tables.tail, ∀ key entry, later.entries.find key = some entry → durable < entry.sequence
  retires : ∀ calls, .retireOldestImmutable ∉ calls → ∃ table rest, set.immutable.head? = some table ∧
    table.entries = entries ∧ (set.run calls).retireOldestImmutable = .ok rest ∧
      set.run calls = { rest with immutable := table :: rest.immutable }

theorem Accounted.oldestSnapshot (h : set.Accounted bound) :
    set.immutable = [] ∧ set.oldestImmutableSnapshot = .ok none ∨
      ∃ entries durable, set.oldestImmutableSnapshot = .ok (some (entries, durable)) ∧
        set.OldestSnapshot entries durable := by
  cases himmutable : set.immutable with
  | nil => exact .inl ⟨rfl, by rw [oldestImmutableSnapshot, himmutable]⟩
  | cons table rest =>
    have hmem : table ∈ set.immutable := by rw [himmutable]; exact List.mem_cons_self
    obtain ⟨durable, hdurable⟩ := Option.isSome_iff_exists.1 (h.frozen table hmem).2
    have htables : set.tables = table :: (rest ++ [set.mutable]) := by rw [tables, himmutable, List.cons_append]
    have hascending := h.ascending
    rw [htables] at hascending
    refine .inr ⟨table.entries, durable, by rw [oldestImmutableSnapshot, himmutable]; simp only [hdurable], ?_, ?_, ?_⟩
    · intro key entry hentry
      obtain ⟨last, hlast, hle⟩ := hascending.entries_le table List.mem_cons_self key entry hentry
      rw [hdurable] at hlast
      cases hlast
      exact hle
    · rw [htables]
      intro later hlater
      exact (List.pairwise_cons.1 hascending.last_lt).1 later hlater durable hdurable
    · intro calls hcalls
      obtain ⟨more, hmore⟩ := run_immutable set hcalls
      rw [himmutable, List.cons_append] at hmore
      refine ⟨table, { set.run calls with immutable := rest ++ more }, by rw [himmutable]; rfl, rfl,
        by rw [retireOldestImmutable, hmore], ?_⟩
      rw [← hmore]

/-- What a set says of its tables. -/
structure Accounts (set : MemTableSet) : Prop where
  /-- The counter of a table is the sum of the sizes of its entries. -/
  bytes : ∀ table ∈ set.tables, table.approximateBytes =
    (table.entries.entries.map fun e => entryOverheadBytes + e.1.length + valueLength e.2.value).sum
  /-- What a replacement subtracts is at most the counter. -/
  replaces : ∀ table ∈ set.tables, ∀ key, ∃ old, table.oldBytes key = .ok old ∧ old ≤ table.approximateBytes
  /-- The next application fails only if the sum of the sizes would exceed a `usize`. -/
  applies : ∀ sequence key value, (∀ last ∈ set.mutable.lastSequence, last < sequence) →
    ((∃ set', set.apply sequence key value = .ok set') ↔
      (set.mutable.entries.insert key ⟨sequence, value⟩).total entryBytes < u64Limit)
  /-- The tables that have reached the limit are the frozen ones. -/
  frozen : (∀ table ∈ set.immutable, set.mutableBytesLimit ≤ table.approximateBytes) ∧
    set.mutable.approximateBytes < set.mutableBytesLimit
  get_eq : ∀ key, set.get key = set.visibleState.find key
  oldest : set.immutable = [] ∧ set.oldestImmutableSnapshot = .ok none ∨
    ∃ entries durable, set.oldestImmutableSnapshot = .ok (some (entries, durable)) ∧
      set.OldestSnapshot entries durable

theorem Accounted.accounts (h : set.Accounted bound) : set.Accounts where
  bytes table htable := (h.counted table htable).bytes
  replaces table htable key := by
    obtain ⟨old, hold, -, hle⟩ := (h.counted table htable).oldBytes key
    exact ⟨old, hold, hle⟩
  applies sequence key value hlast := by
    rw [exists_apply]
    exact (h.counted _ (List.mem_append_right _ (List.mem_singleton_self _))).exists_apply hlast
  frozen := ⟨fun table htable => (h.frozen table htable).1, h.mutable_lt⟩
  get_eq key := by
    rw [get_eq_firstHit, visibleState]
    exact (find_overlayAll_of_ascending h.ascending.layers).symm
  oldest := h.oldestSnapshot

/-- **The accounting of the memtables**, after every run whose applications have increasing sequence numbers. -/
theorem memtable_accounting {start : MemTableSet} (hstart : new limit = .ok start)
    (hincreasing : (calls.filterMap MemTableCall.sequence).Pairwise (· < ·)) : (start.run calls).Accounts := by
  have hrun : (start.run calls).Accounted ((calls.filterMap MemTableCall.sequence).sum + 1) :=
    (accounted_new hstart).run hincreasing (fun sequence _ => Nat.zero_le sequence) (Nat.zero_le _)
      fun sequence hmem => Nat.lt_succ_of_le (List.le_sum_of_mem hmem)
  exact hrun.accounts

theorem memtable_accounting_frozen : (run ⟨.empty, [], 30⟩ [.apply 0 [1] (some [2]), .apply 1 [1] (some [3, 4, 5, 6, 7]),
    .apply 5 [1] none, .retireOldestImmutable, .apply 7 [2] none]).Accounts :=
  @memtable_accounting 30 _ _ rfl (by decide)

end MemTableSet
end DbLab.Lsm
