import DbLab.Core
import DbLab.Lib.Versions

/-!
# Memtables

The newest versions in memory: one mutable table, and the frozen tables that are not written out yet,
oldest first. A table freezes when its resident bytes reach the limit of the set.
-/

namespace DbLab.Lsm

/-- Source `VersionedEntry`. -/
abbrev VersionedEntry := Version Bytes

/-- An ordered map from keys to versions. -/
abbrev VersionMap := Layer Bytes Bytes

def entryOverheadBytes : ℕ := 24

def corruption (reason : String) : DbError := .corruption 0 reason

/-- The length of a value, none for a tombstone. -/
def valueLength (value : Option Bytes) : ℕ := (value.map List.length).getD 0

/-- Source `resident_bytes`. -/
def residentBytes (key : Bytes) (value : Option Bytes) : Except DbError ℕ := do
  let bytes ← checkedAdd entryOverheadBytes key.length
    (corruption "MemTable resident-byte calculation overflowed usize")
  checkedAdd bytes (valueLength value) (corruption "MemTable resident-byte calculation overflowed usize")

structure MemTable where
  entries : VersionMap
  approximateBytes : ℕ
  lastSequence : Option ℕ

namespace MemTable

def empty : MemTable := ⟨.empty, 0, none⟩

/-- The resident bytes of the entry that an application replaces. -/
def oldBytes (table : MemTable) (key : Bytes) : Except DbError ℕ :=
  match table.entries.find key with
  | some entry => residentBytes key entry.value
  | none => .ok 0

/-- Source `apply` of a table. -/
def apply (table : MemTable) (sequence : ℕ) (key : Bytes) (value : Option Bytes) :
    Except DbError MemTable := do
  failWhen (table.lastSequence.any fun last => sequence ≤ last)
    (corruption s!"MemTable sequence {sequence} does not follow {table.lastSequence}")
  let newBytes ← residentBytes key value
  let oldBytes ← table.oldBytes key
  failWhen (table.approximateBytes < oldBytes)
    (corruption "MemTable byte accounting underflowed while replacing an entry")
  let approximateBytes ← checkedAdd (table.approximateBytes - oldBytes) newBytes
    (corruption "MemTable byte accounting overflowed while applying an entry")
  .ok { entries := table.entries.insert key ⟨sequence, value⟩
        approximateBytes := approximateBytes
        lastSequence := some sequence }

variable {table table' : MemTable} {sequence : ℕ} {key : Bytes} {value : Option Bytes}

/-- What an application to a table does. -/
theorem apply_eq_ok (h : table.apply sequence key value = .ok table') :
    table'.entries = table.entries.insert key ⟨sequence, value⟩ ∧ table'.lastSequence = some sequence ∧
      ∀ last ∈ table.lastSequence, last < sequence := by
  unfold apply at h
  simp only [Checked.bind_eq_ok, failWhen_eq_ok, checkedAdd_eq_ok, Except.ok.injEq] at h
  obtain ⟨_, hlast, _, -, _, -, _, -, _, -, rfl⟩ := h
  refine ⟨rfl, rfl, fun last hmem => ?_⟩
  rw [Option.mem_def] at hmem
  rw [hmem] at hlast
  simpa using hlast

end MemTable

structure MemTableSet where
  mutable : MemTable
  /-- Frozen tables, oldest first. -/
  immutable : List MemTable
  mutableBytesLimit : ℕ

namespace MemTableSet

def new (mutableBytesLimit : ℕ) : Except DbError MemTableSet :=
  if mutableBytesLimit = 0 then
    .error (.invalidInput "LSM mutable MemTable byte limit must be greater than zero")
  else .ok ⟨.empty, [], mutableBytesLimit⟩

/-- Source `apply` of the set. -/
def apply (set : MemTableSet) (sequence : ℕ) (key : Bytes) (value : Option Bytes) :
    Except DbError MemTableSet := do
  let table ← set.mutable.apply sequence key value
  if set.mutableBytesLimit ≤ table.approximateBytes then
    if table.entries.entries = [] then
      .error (corruption "attempted to freeze an empty MemTable")
    else .ok { set with mutable := .empty, immutable := set.immutable ++ [table] }
  else .ok { set with mutable := table }

/-- The tables, oldest first. -/
def tables (set : MemTableSet) : List MemTable := set.immutable ++ [set.mutable]

def layers (set : MemTableSet) : List VersionMap := set.tables.map MemTable.entries

def get (set : MemTableSet) (key : Bytes) : Option VersionedEntry :=
  match set.mutable.entries.find key with
  | some entry => some entry
  | none => set.immutable.reverse.findSome? fun table => table.entries.find key

/-- Source `visible_state`. -/
def visibleState (set : MemTableSet) : VersionMap := overlayAll set.layers

/-- Source `oldest_immutable_snapshot`. -/
def oldestImmutableSnapshot (set : MemTableSet) : Except DbError (Option (VersionMap × ℕ)) :=
  match set.immutable with
  | [] => .ok none
  | table :: _ =>
    match table.lastSequence with
    | some durableSequence => .ok (some (table.entries, durableSequence))
    | none => .error (corruption "frozen MemTable has no last sequence")

/-- Source `retire_oldest_immutable`. -/
def retireOldestImmutable (set : MemTableSet) : Except DbError MemTableSet :=
  match set.immutable with
  | [] => .error (corruption "attempted to retire a missing frozen MemTable")
  | _ :: rest => .ok { set with immutable := rest }

variable {set : MemTableSet} {key : Bytes}

theorem get_eq_firstHit : set.get key = firstHit set.layers key := by
  rw [layers, tables, List.map_append, List.map_singleton, firstHit_concat, get]
  cases set.mutable.entries.find key with
  | some entry => rfl
  | none =>
    rw [Option.none_or, firstHit, ← List.map_reverse, List.findSome?_map]
    rfl

end MemTableSet

/-! ### The sequence numbers in memory -/

/-- The upper end of a table: its last sequence number. -/
def MemTable.top (table : MemTable) : ℕ := table.lastSequence.getD 0

/-- The tables as a stack above `low`. The mutable table ends at `last`, the last sequence number of the
log. -/
def MemTableSet.stack (set : MemTableSet) (last : ℕ) : List (VersionMap × ℕ) :=
  set.immutable.map (fun table => (table.entries, table.top)) ++ [(set.mutable.entries, last)]

/-- The frozen tables hold sequence numbers above `low`, each table above the one before it, and the
mutable table holds those above them, up to `last`. -/
structure MemTableSet.Ordered (set : MemTableSet) (low last : ℕ) : Prop where
  stacked : Stacked low (set.stack last)
  frozen : ∀ table ∈ set.immutable, table.lastSequence.isSome
  mutable_le : ∀ sequence ∈ set.mutable.lastSequence, sequence ≤ last

namespace MemTableSet

variable {set set' : MemTableSet} {table table' : MemTable} {sequence low low' last last' : ℕ}
  {key : Bytes} {value : Option Bytes}

theorem stack_layers (last : ℕ) : (set.stack last).map Prod.fst = set.layers := by
  simp [stack, layers, tables]

theorem stackTop_stack : stackTop low (set.stack last) = last := by
  simp [stack, stackTop]

theorem new_eq_ok {limit : ℕ} (h : new limit = .ok set) : set = ⟨.empty, [], limit⟩ := by
  rw [new, Checked.guard_eq_ok, Except.ok.injEq] at h
  exact h.2.symm

/-- What an application to the set does: the mutable table changes, and may freeze. -/
theorem apply_eq_ok (h : set.apply sequence key value = .ok set') :
    ∃ table, set.mutable.apply sequence key value = .ok table ∧
      set'.mutableBytesLimit = set.mutableBytesLimit ∧
      (set'.immutable = set.immutable ++ [table] ∧ set'.mutable = .empty ∨
        set'.immutable = set.immutable ∧ set'.mutable = table) := by
  unfold apply at h
  rw [Checked.bind_eq_ok] at h
  obtain ⟨table, htable, h⟩ := h
  refine ⟨table, htable, ?_⟩
  split_ifs at h
  · cases h
    exact ⟨rfl, .inl ⟨rfl, rfl⟩⟩
  · cases h
    exact ⟨rfl, .inr ⟨rfl, rfl⟩⟩

theorem ordered_new (h : low ≤ last) {limit : ℕ} : Ordered ⟨.empty, [], limit⟩ low last where
  stacked := ⟨h, within_empty, trivial⟩
  frozen := by simp
  mutable_le := by simp [MemTable.empty]

theorem Ordered.raise (h : set.Ordered low last) (hle : last ≤ last') : set.Ordered low last' where
  stacked := by
    obtain ⟨hfrozen, hmutable⟩ := stacked_append.1 h.stacked
    obtain ⟨hlow, hwithin, -⟩ := hmutable
    exact stacked_append.2 ⟨hfrozen, hlow.trans hle, hwithin.mono le_rfl hle, trivial⟩
  frozen := h.frozen
  mutable_le sequence hmem := (h.mutable_le sequence hmem).trans hle

theorem Ordered.low_le (h : set.Ordered low last) : low ≤ last := by
  have := h.stacked.le_top
  rwa [stackTop_stack] at this

/-- **A mutation of the log enters the set.** -/
theorem Ordered.apply (h : set.Ordered low last) (hlast : last < sequence)
    (happly : set.apply sequence key value = .ok set') : set'.Ordered low sequence := by
  obtain ⟨table, htable, -, hcases⟩ := apply_eq_ok happly
  obtain ⟨hentries, hsequence, -⟩ := MemTable.apply_eq_ok htable
  obtain ⟨hfrozen, hlow, hwithin, -⟩ := stacked_append.1 h.stacked
  have htop : table.top = sequence := by rw [MemTable.top, hsequence]; rfl
  have hlow' := hlow.trans hlast.le
  have hwithin' : Within (stackTop low (set.immutable.map fun table => (table.entries, table.top)))
      sequence table.entries := by
    rw [hentries]
    exact (hwithin.insert (v := ⟨sequence, value⟩) (hlow.trans_lt hlast) hlast.le)
  rcases hcases with ⟨himm, hmut⟩ | ⟨himm, hmut⟩
  · constructor
    · rw [stack, himm, hmut, List.map_append, List.map_singleton, List.append_assoc]
      refine stacked_append.2 ⟨hfrozen, ?_⟩
      rw [htop]
      exact ⟨hlow', hwithin', le_rfl, within_empty, trivial⟩
    · rw [himm]
      intro t ht
      rcases List.mem_append.1 ht with ht | ht
      · exact h.frozen t ht
      · rw [List.mem_singleton.1 ht, hsequence]
        rfl
    · rw [hmut]
      simp [MemTable.empty]
  · constructor
    · rw [stack, himm, hmut]
      exact stacked_append.2 ⟨hfrozen, hlow', hwithin', trivial⟩
    · rw [himm]
      exact h.frozen
    · rw [hmut, hsequence]
      rintro _ ⟨⟩
      exact le_rfl

/-- **The oldest frozen table leaves the set.** -/
theorem Ordered.retire (h : set.Ordered low last) {entries : VersionMap} {durable : ℕ}
    (hold : set.oldestImmutableSnapshot = .ok (some (entries, durable))) :
    ∃ rest, set.retireOldestImmutable = .ok rest ∧ Within low durable entries ∧ low ≤ durable ∧
      rest.Ordered durable last ∧ rest.mutableBytesLimit = set.mutableBytesLimit := by
  unfold oldestImmutableSnapshot at hold
  cases himm : set.immutable with
  | nil =>
    rw [himm] at hold
    cases hold
  | cons table rest =>
    rw [himm] at hold
    dsimp only at hold
    cases hsequence : table.lastSequence with
    | none =>
      rw [hsequence] at hold
      cases hold
    | some sequence =>
      rw [hsequence] at hold
      cases hold
      have hstacked := h.stacked
      rw [stack, himm, List.map_cons, List.cons_append] at hstacked
      obtain ⟨hlow, hwithin, hrest⟩ := hstacked
      rw [MemTable.top, hsequence] at hlow hwithin hrest
      refine ⟨{ set with immutable := rest }, by rw [retireOldestImmutable, himm], hwithin, hlow, ?_, rfl⟩
      exact ⟨hrest, fun t ht => h.frozen t (by rw [himm]; exact List.mem_cons_of_mem _ ht), h.mutable_le⟩

end MemTableSet
end DbLab.Lsm
