import DbLab.Lib.Sorted

/-!
# Ordered maps

An ordered map as a structure that carries the proof that its list is sorted. Two maps with the same
lookups are equal, so that a map is known from `find`.
-/

namespace DbLab

/-- An ordered map. -/
structure SortedMap (κ α : Type) [LinearOrder κ] where
  entries : List (κ × α)
  sorted : SortedBy Prod.fst entries

namespace SortedMap

variable {κ α : Type} [LinearOrder κ] {m m' : SortedMap κ α} {k k' : κ} {a b : α}

instance [DecidableEq α] : DecidableEq (SortedMap κ α) := fun m m' =>
  decidable_of_iff (m.entries = m'.entries) (by cases m; cases m'; simp)

def empty : SortedMap κ α := ⟨[], List.Pairwise.nil⟩

def find (m : SortedMap κ α) (k : κ) : Option α := (lookupBy Prod.fst k m.entries).map Prod.snd

def insert (m : SortedMap κ α) (k : κ) (a : α) : SortedMap κ α :=
  ⟨upsertBy Prod.fst (k, a) m.entries, m.sorted.upsertBy⟩

def erase (m : SortedMap κ α) (k : κ) : SortedMap κ α := ⟨removeBy Prod.fst k m.entries, m.sorted.removeBy⟩

/-- The entries that a test keeps. -/
def filter (m : SortedMap κ α) (p : κ × α → Bool) : SortedMap κ α :=
  ⟨m.entries.filter p, m.sorted.sublist List.filter_sublist⟩

def keys (m : SortedMap κ α) : List κ := m.entries.map Prod.fst

theorem find_eq_some : m.find k = some a ↔ (k, a) ∈ m.entries := by
  rw [find, Option.map_eq_some_iff]
  constructor
  · rintro ⟨⟨k', a'⟩, hlook, rfl⟩
    rw [lookupBy_eq_some m.sorted] at hlook
    obtain ⟨hmem, rfl⟩ := hlook
    exact hmem
  · intro hmem
    exact ⟨(k, a), (lookupBy_eq_some m.sorted).2 ⟨hmem, rfl⟩, rfl⟩

theorem ext_find (h : ∀ k, m.find k = m'.find k) : m = m' := by
  have hmem : ∀ x, x ∈ m.entries ↔ x ∈ m'.entries := by
    rintro ⟨k, a⟩
    rw [← find_eq_some, ← find_eq_some, h]
  cases m with
  | mk l hl =>
    cases m' with
    | mk l' hl' =>
      obtain rfl : l = l' := hl.ext hl' hmem
      rfl

@[simp] theorem find_empty : (empty : SortedMap κ α).find k = none := rfl

@[simp] theorem find_insert : (m.insert k a).find k' = if k' = k then some a else m.find k' := by
  rw [find, insert, lookupBy_upsertBy m.sorted]
  by_cases h : k' = k
  · simp [h]
  · simp [h, find]

@[simp] theorem find_erase : (m.erase k).find k' = if k' = k then none else m.find k' := by
  rw [find, erase, lookupBy_removeBy m.sorted]
  by_cases h : k' = k
  · simp [h]
  · simp [h, find]

theorem find_filter {p : κ × α → Bool} :
    (m.filter p).find k = (m.find k).filter fun a => p (k, a) := by
  ext a
  rw [find_eq_some, filter, List.mem_filter, ← find_eq_some, Option.filter_eq_some_iff]

theorem mem_keys : k ∈ m.keys ↔ (m.find k).isSome := by
  rw [keys, List.mem_map, Option.isSome_iff_exists]
  constructor
  · rintro ⟨⟨k', a⟩, hmem, rfl⟩
    exact ⟨a, find_eq_some.2 hmem⟩
  · rintro ⟨a, ha⟩
    exact ⟨(k, a), find_eq_some.1 ha, rfl⟩

/-- The keys of two maps that have values at the same keys. -/
theorem keys_congr (h : ∀ k, (m.find k).isSome ↔ (m'.find k).isSome) : m.keys = m'.keys := by
  have hsorted : ∀ m : SortedMap κ α, SortedBy (fun k => k) m.keys := fun m => sortedBy_map.2 m.sorted
  refine (hsorted m).ext (hsorted m') fun k => ?_
  rw [mem_keys, mem_keys, h k]

theorem keys_insert (h : (m.find k).isSome) : (m.insert k a).keys = m.keys := by
  refine keys_congr fun k' => ?_
  rw [find_insert]
  by_cases hk : k' = k
  · rw [if_pos hk, hk]
    exact iff_of_true rfl h
  · rw [if_neg hk]

theorem find_head {e : κ × α} {l : List (κ × α)} (h : m.entries = e :: l) (k : κ) (hk : (m.find k).isSome) :
    e.1 ≤ k := by
  obtain ⟨a, ha⟩ := Option.isSome_iff_exists.1 hk
  have hmem := find_eq_some.1 ha
  have hsorted := m.sorted
  rw [h] at hmem hsorted
  rcases List.mem_cons.1 hmem with heq | hmem
  · exact (congrArg Prod.fst heq).ge
  · exact ((sortedBy_cons.1 hsorted).1 _ hmem).le

theorem find_getLast (hne : m.entries ≠ []) (k : κ) (hk : (m.find k).isSome) :
    k ≤ (m.entries.getLast hne).1 := by
  obtain ⟨a, ha⟩ := Option.isSome_iff_exists.1 hk
  have hmem := find_eq_some.1 ha
  have hsorted := m.sorted
  rw [← List.dropLast_append_getLast hne] at hmem hsorted
  rcases List.mem_append.1 hmem with hmem | hmem
  · exact ((sortedBy_append.1 hsorted).2.2 _ hmem _ (List.mem_singleton_self _)).le
  · exact (congrArg Prod.fst (List.mem_singleton.1 hmem)).le

/-! ### Sums -/

/-- The sum of the sizes of all entries. -/
def total (size : κ → α → ℕ) (m : SortedMap κ α) : ℕ := (m.entries.map fun e => size e.1 e.2).sum

/-- The size of the entry with a key, none if there is no such entry. -/
def sizeAt (size : κ → α → ℕ) (m : SortedMap κ α) (k : κ) : ℕ := ((m.find k).map (size k)).getD 0

variable {size : κ → α → ℕ}

@[simp] theorem total_empty : (empty : SortedMap κ α).total size = 0 := rfl

theorem lookupBy_size :
    ((lookupBy Prod.fst k m.entries).map fun e => size e.1 e.2).getD 0 = m.sizeAt size k := by
  rw [sizeAt, find]
  cases hlook : lookupBy Prod.fst k m.entries with
  | none => rfl
  | some e =>
    obtain ⟨-, rfl⟩ := (lookupBy_eq_some m.sorted).1 hlook
    rfl

/-- An insertion adds the size of the new entry and takes away that of the old one. -/
theorem total_insert : (m.insert k a).total size + m.sizeAt size k = m.total size + size k a := by
  rw [← lookupBy_size]
  exact sum_map_upsertBy (a := (k, a)) (fun e => size e.1 e.2) m.sorted

theorem sizeAt_le_total : m.sizeAt size k ≤ m.total size := by
  rw [sizeAt]
  cases hfind : m.find k with
  | none => exact Nat.zero_le _
  | some a =>
    exact List.le_sum_of_mem (List.mem_map.2 ⟨(k, a), find_eq_some.1 hfind, rfl⟩)

end SortedMap
end DbLab
