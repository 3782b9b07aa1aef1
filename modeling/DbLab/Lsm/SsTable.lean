import DbLab.Lsm.Bloom

/-!
# Sorted tables

A file of a sorted table is taken as the numbers of its header and footer, its records and its filter;
what a damaged file holds cannot be read. An open table carries what `open` has checked: its keys lie
between its bounds, its sequence numbers are at most its durable sequence, and its filter admits all its
keys. A lookup is therefore a lookup in its records.
-/

namespace DbLab.Lsm

def sstableHeaderLen : ℕ := 64
def sstableFooterLen : ℕ := 64
def tableRecordHeaderLen : ℕ := 28
def indexPrefixLen : ℕ := 24

structure SstableDescriptor where
  tableId : ℕ
  level : ℕ
  fileBytes : ℕ
  entryCount : ℕ
  durableSequence : ℕ
  smallestKey : Bytes
  largestKey : Bytes
  deriving DecidableEq

/-- What a file of a sorted table holds. -/
structure TableContent where
  tableId : ℕ
  entryCount : ℕ
  durableSequence : ℕ
  fileBytes : ℕ
  records : List (Bytes × VersionedEntry)
  bloom : Option BloomFilter
  deriving DecidableEq

inductive TableFile
  | complete (content : TableContent)
  | damaged
  deriving DecidableEq

/-- An open table. -/
structure SsTable where
  descriptor : SstableDescriptor
  index : VersionMap
  bloom : Option BloomFilter
  bounded : ∀ key ∈ index.keys, descriptor.smallestKey ≤ key ∧ key ≤ descriptor.largestKey
  below : ∀ e ∈ index.entries, e.2.sequence ≤ descriptor.durableSequence
  covered : ∀ filter ∈ bloom, ∀ key ∈ index.keys, filter.mayContain key = true

instance {α κ : Type} [LinearOrder κ] {key : α → κ} {l : List α} : Decidable (SortedBy key l) :=
  inferInstanceAs (Decidable (l.Pairwise _))

/-- The keys are between the first and the last one. -/
theorem bounds_of_ends {m : VersionMap} {smallest largest : Bytes}
    (hfirst : m.entries.head?.map Prod.fst = some smallest)
    (hlast : m.entries.getLast?.map Prod.fst = some largest) :
    ∀ key ∈ m.keys, smallest ≤ key ∧ key ≤ largest := by
  intro key hkey
  rw [SortedMap.mem_keys] at hkey
  constructor
  · cases hentries : m.entries with
    | nil => simp [hentries] at hfirst
    | cons e l =>
      rw [hentries] at hfirst
      cases hfirst
      exact m.find_head hentries key hkey
  · have hne : m.entries ≠ [] := by
      intro h
      simp [h] at hlast
    rw [List.getLast?_eq_some_getLast hne] at hlast
    cases hlast
    exact m.find_getLast hne key hkey

/-- Source `validate_entry_bounds`. -/
def validateEntryBounds (e : Bytes × VersionedEntry) : Except DbError Unit := do
  failWhen (maxKeyBytes < e.1.length)
    (.invalidInput s!"key length {e.1.length} exceeds maximum {maxKeyBytes}")
  failWhen (maxValueBytes < valueLength e.2.value)
    (.invalidInput s!"value length {valueLength e.2.value} exceeds maximum {maxValueBytes}")

namespace SsTable

/-- The bytes of the records and of the index. -/
def recordBytes (entries : List (Bytes × VersionedEntry)) : ℕ :=
  (entries.map fun e => (tableRecordHeaderLen + e.1.length + valueLength e.2.value + 4) +
    (indexPrefixLen + e.1.length + 4)).sum

/-- Source `create_new_with_format` for the current format: the file and its descriptor. -/
def create (tableId level durableSequence : ℕ) (entries : VersionMap) :
    Except DbError (TableContent × SstableDescriptor) := do
  failWhen (entries.entries = []) (corruption "cannot create an empty SSTable")
  let bloom ← BloomFilter.build entries.keys entries.entries.length
  let bloomBytes ← bloom.encodedBytes
  entries.entries.forM validateEntryBounds
  let fileBytes := sstableHeaderLen + bloomBytes + recordBytes entries.entries + sstableFooterLen
  .ok
    ({ tableId := tableId
       entryCount := entries.entries.length
       durableSequence := durableSequence
       fileBytes := fileBytes
       records := entries.entries
       bloom := some bloom },
     { tableId := tableId
       level := level
       fileBytes := fileBytes
       entryCount := entries.entries.length
       durableSequence := durableSequence
       smallestKey := (entries.keys.head?).getD []
       largestKey := (entries.keys.getLast?).getD [] })

/-- Source `open`, for what the file holds. -/
def openContent (descriptor : SstableDescriptor) (content : TableContent) : Except DbError SsTable :=
  if content.fileBytes ≠ descriptor.fileBytes then
    .error (corruption
      s!"SSTable {descriptor.tableId} length mismatch: manifest {descriptor.fileBytes}, file {content.fileBytes}")
  else if content.tableId ≠ descriptor.tableId ∨ content.entryCount ≠ descriptor.entryCount then
    .error (corruption "SSTable header does not match manifest descriptor")
  else if content.durableSequence ≠ descriptor.durableSequence then
    .error (corruption "SSTable footer metadata disagrees with header/manifest")
  else if sorted : SortedBy Prod.fst content.records then
    if content.records.length ≠ content.entryCount then
      .error (corruption "SSTable data record count/extent mismatch")
    else if content.records = [] then
      .error (corruption "manifest references empty SSTable")
    else if bounds : content.records.head?.map Prod.fst = some descriptor.smallestKey ∧
        content.records.getLast?.map Prod.fst = some descriptor.largestKey then
      if below : ∀ e ∈ content.records, e.2.sequence ≤ descriptor.durableSequence then
        if covered : ∀ filter ∈ content.bloom.toList, ∀ e ∈ content.records, filter.mayContain e.1 = true then
          .ok { descriptor := descriptor
                index := ⟨content.records, sorted⟩
                bloom := content.bloom
                bounded := bounds_of_ends (m := ⟨content.records, sorted⟩) bounds.1 bounds.2
                below := below
                covered := by
                  intro filter hfilter key hkey
                  obtain ⟨e, he, rfl⟩ := List.mem_map.1 hkey
                  exact covered filter (Option.mem_toList.2 hfilter) e he }
        else .error (corruption "SSTable Bloom filter has a false negative for an indexed key")
      else .error (corruption "SSTable entry sequence exceeds durable watermark")
    else .error (corruption "SSTable key bounds disagree with manifest descriptor")
  else .error (corruption "SSTable data keys are not strictly sorted")

/-- Source `get`. -/
def get (table : SsTable) (key : Bytes) : Option VersionedEntry :=
  if key < table.descriptor.smallestKey ∨ table.descriptor.largestKey < key ∨
      table.bloom.any fun filter => ! filter.mayContain key then none
  else table.index.find key

/-- The key lies in a range whose end is open. -/
def InRange (start : Bytes) (stop : Option Bytes) (key : Bytes) : Prop :=
  start ≤ key ∧ ∀ bound ∈ stop, key < bound

instance {start key : Bytes} {stop : Option Bytes} : Decidable (InRange start stop key) :=
  decidable_of_iff (start ≤ key ∧ stop.all fun bound => key < bound) (by cases stop <;> simp [InRange])

/-- The loop of `overlay_range`. -/
def overlayEntries (start : Bytes) (stop : Option Bytes) :
    List (Bytes × VersionedEntry) → VersionMap → VersionMap
  | [], visible => visible
  | e :: rest, visible =>
    if e.1 < start then overlayEntries start stop rest visible
    else if stop.any fun bound => bound ≤ e.1 then visible
    else overlayEntries start stop rest (supersede visible e)

def overlayRange (table : SsTable) (start : Bytes) (stop : Option Bytes) (visible : VersionMap) :
    VersionMap :=
  overlayEntries start stop table.index.entries visible

variable {table : SsTable} {descriptor : SstableDescriptor} {content : TableContent} {key start : Bytes}
  {stop : Option Bytes} {visible : VersionMap} {entries : List (Bytes × VersionedEntry)}

/-- The bounds and the filter of an open table never hide a key. -/
theorem get_eq_find : table.get key = table.index.find key := by
  unfold get
  split_ifs with h
  · cases hfind : table.index.find key with
    | none => rfl
    | some entry =>
      have hmem : key ∈ table.index.keys := by
        rw [SortedMap.mem_keys, hfind]
        rfl
      obtain ⟨hlow, hhigh⟩ := table.bounded key hmem
      rcases h with h | h | h
      · exact absurd h hlow.not_gt
      · exact absurd h hhigh.not_gt
      · obtain ⟨filter, hfilter, hneg⟩ := (Option.any_eq_true ..).1 h
        rw [table.covered filter hfilter key hmem] at hneg
        cases hneg
  · rfl

theorem overlayEntries_eq (h : SortedBy Prod.fst entries) :
    overlayEntries start stop entries visible =
      overlay visible (entries.filter fun e => InRange start stop e.1) := by
  induction entries generalizing visible with
  | nil => rfl
  | cons e rest ih =>
    obtain ⟨hhead, htail⟩ := sortedBy_cons.1 h
    rw [overlayEntries]
    by_cases hlow : e.1 < start
    · have hout : ¬ InRange start stop e.1 := fun hin => hin.1.not_gt hlow
      rw [if_pos hlow, ih htail, List.filter_cons_of_neg (by simpa using hout)]
    · rw [if_neg hlow]
      by_cases hstop : stop.any fun bound => bound ≤ e.1
      · have hout : ∀ a ∈ e :: rest, ¬ InRange start stop a.1 := by
          intro a ha hin
          obtain ⟨bound, hbound, hle⟩ := (Option.any_eq_true ..).1 hstop
          have hbelow : bound ≤ e.1 := of_decide_eq_true hle
          have hlt := hin.2 bound hbound
          rcases List.mem_cons.1 ha with rfl | ha
          · exact hlt.not_ge hbelow
          · exact hlt.not_ge (hbelow.trans (hhead a ha).le)
        rw [if_pos hstop, List.filter_eq_nil_iff.2 (by simpa using hout)]
        rfl
      · have hin : InRange start stop e.1 := by
          refine ⟨not_lt.1 hlow, fun bound hbound => ?_⟩
          by_contra hge
          exact hstop ((Option.any_eq_true ..).2 ⟨bound, hbound, decide_eq_true (not_lt.1 hge)⟩)
        rw [if_neg hstop, ih htail, List.filter_cons_of_pos (by simpa using hin)]
        rfl

theorem openContent_eq_ok (h : openContent descriptor content = .ok table) :
    table.descriptor = descriptor ∧ table.index.entries = content.records ∧
      content.durableSequence = descriptor.durableSequence := by
  unfold openContent at h
  split_ifs at h with h1 h2 h3 h4 h5 h6 h7 h8 h9
  cases h
  exact ⟨rfl, rfl, not_not.1 h3⟩

theorem create_eq_ok {tableId level durable : ℕ} {map : VersionMap}
    (h : create tableId level durable map = .ok (content, descriptor)) :
    content.records = map.entries ∧ content.tableId = tableId ∧ descriptor.tableId = tableId ∧
      descriptor.level = level ∧ descriptor.durableSequence = durable := by
  unfold create at h
  simp only [Checked.bind_eq_ok, Except.ok.injEq, Prod.mk.injEq] at h
  obtain ⟨-, -, bloom, -, bytes, -, -, -, rfl, rfl⟩ := h
  exact ⟨rfl, rfl, rfl, rfl, rfl⟩

end SsTable
end DbLab.Lsm
