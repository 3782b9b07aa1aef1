import Mathlib.Data.Char
import DbLab.Core
import DbLab.Lib.Bytes
import DbLab.Lib.Checked
import DbLab.Lib.Decimal
import DbLab.Lib.Sorted

/-!
# The generation directory

A generation directory holds four kinds of files and nothing else. The kind and the generation id of
a file are in its name, and a name is accepted only in its canonical form. The scan of the namespace
fails for any other entry.
-/

namespace DbLab.Generation

/-- A name in a directory. -/
abbrev Name := List Char

/-- What a directory has under a name. -/
inductive Entry
  | regular (bytes : Bytes)
  /-- A symbolic link or something else that is no regular file. -/
  | other
  deriving DecidableEq, Repr

/-- The entries of a directory, in the order of their names. -/
structure Directory where
  entries : List (Name × Entry)
  sorted : SortedBy Prod.fst entries
  deriving DecidableEq

namespace Directory

variable {d : Directory} {name name' : Name} {entry : Entry}

def empty : Directory := ⟨[], List.Pairwise.nil⟩

/-- What is at a name. -/
def find (d : Directory) (name : Name) : Option Entry := (lookupBy Prod.fst name d.entries).map Prod.snd

def insert (d : Directory) (name : Name) (entry : Entry) : Directory :=
  ⟨upsertBy Prod.fst (name, entry) d.entries, d.sorted.upsertBy⟩

def remove (d : Directory) (name : Name) : Directory :=
  ⟨removeBy Prod.fst name d.entries, d.sorted.removeBy⟩

/-- There is an entry at the name. -/
def Has (d : Directory) (name : Name) : Prop := (d.find name).isSome

instance : Decidable (d.Has name) := inferInstanceAs (Decidable (_ = true))

theorem find_eq_some : d.find name = some entry ↔ (name, entry) ∈ d.entries := by
  rw [find, Option.map_eq_some_iff]
  constructor
  · rintro ⟨⟨name', entry'⟩, hlook, rfl⟩
    rw [lookupBy_eq_some d.sorted] at hlook
    obtain ⟨hmem, rfl⟩ := hlook
    exact hmem
  · intro hmem
    exact ⟨(name, entry), (lookupBy_eq_some d.sorted).2 ⟨hmem, rfl⟩, rfl⟩

@[simp] theorem find_insert :
    (d.insert name entry).find name' = if name' = name then some entry else d.find name' := by
  rw [find, insert, lookupBy_upsertBy d.sorted]
  by_cases h : name' = name
  · simp [h]
  · simp [h, find]

@[simp] theorem find_remove :
    (d.remove name).find name' = if name' = name then none else d.find name' := by
  rw [find, remove, lookupBy_removeBy d.sorted]
  by_cases h : name' = name
  · simp [h]
  · simp [h, find]

theorem has_iff_exists : d.Has name ↔ ∃ entry, (name, entry) ∈ d.entries := by
  simp only [Has, Option.isSome_iff_exists, find_eq_some]

@[simp] theorem has_insert : (d.insert name entry).Has name' ↔ name' = name ∨ d.Has name' := by
  by_cases h : name' = name <;> simp [Has, h]

@[simp] theorem has_remove : (d.remove name).Has name' ↔ name' ≠ name ∧ d.Has name' := by
  by_cases h : name' = name <;> simp [Has, h]

/-- A directory is determined by what it has under each name. -/
theorem ext_find {d' : Directory} (h : ∀ name, d.find name = d'.find name) : d = d' := by
  obtain ⟨entries, hsorted⟩ := d
  obtain ⟨entries', hsorted'⟩ := d'
  have heq : entries = entries' := by
    refine hsorted.ext hsorted' fun ⟨name, entry⟩ => ?_
    rw [← find_eq_some (d := ⟨entries, hsorted⟩), h, find_eq_some]
  subst heq
  rfl

theorem length_insert :
    (d.insert name entry).entries.length =
      if d.Has name then d.entries.length else d.entries.length + 1 := by
  simp only [insert, length_upsertBy d.sorted, Has, find, Option.isSome_map]

theorem not_has_iff : ¬ d.Has name ↔ d.find name = none := by
  simp [Has]

end Directory

/-- The bytes and the checksum of a file. -/
structure Fingerprint where
  bytes : ℕ
  crc32 : ℕ
  deriving DecidableEq, Repr

/-- Source `GenerationDirectoryError`, together with the errors of the operations on a directory. -/
inductive GenerationError
  | invalid (reason : String)
  | database (error : DbError)
  | io
  | notFound
  | lock
  | notRetained (generation : ℕ)
  | durabilityUncertain
  | authorityChanged
  | confirmationRequired
  | fingerprintChanged (generation : ℕ) (expected found : Fingerprint)
  | stagingChanged (generation : ℕ)
  | reservedGenerationObsolete (reserved authoritative : ℕ)
  | sourceChanged (orphan : ℕ)
  | targetChanged (generation : ℕ)
  | finalAuthority (found expected : ℕ)
  | finalState (generation : ℕ)
  deriving DecidableEq, Repr

/-- The kinds of files in a generation directory. -/
inductive FileKind
  | generation
  | commit
  | stagingCommit
  | reservation
  deriving DecidableEq, Repr

namespace FileKind

def fixedPrefix : FileKind → Name
  | generation => ['g', 'e', 'n', 'e', 'r', 'a', 't', 'i', 'o', 'n', '-']
  | commit => ['c', 'o', 'm', 'm', 'i', 't', '-']
  | stagingCommit =>
    ['s', 't', 'a', 'g', 'i', 'n', 'g', '-', 'c', 'o', 'm', 'm', 'i', 't', '-']
  | reservation => ['r', 'e', 's', 'e', 'r', 'v', 'e', '-']

def fixedSuffix : FileKind → Name
  | generation => ['.', 'l', 'o', 'g']
  | commit | stagingCommit => ['.', 'm', 'a', 'r', 'k', 'e', 'r']
  | reservation => ['.', 'f', 'r', 'o', 'n', 't', 'i', 'e', 'r']

def label : FileKind → String
  | generation => "generation log"
  | commit => "commit marker"
  | stagingCommit => "staging commit marker"
  | reservation => "generation reservation"

end FileKind

def generationIdWidth : ℕ := 20
def maxDirectoryEntries : ℕ := 8192

/-- The name of a file of a kind, `format!("{PREFIX}{id:020}{SUFFIX}")`. -/
def canonicalName (kind : FileKind) (id : ℕ) : Name :=
  kind.fixedPrefix ++ (decPad generationIdWidth id ++ kind.fixedSuffix)

def canonicalGenerationName (id : ℕ) : Name := canonicalName .generation id
def canonicalMarkerName (id : ℕ) : Name := canonicalName .commit id
def canonicalStagingMarkerName (id : ℕ) : Name := canonicalName .stagingCommit id
def canonicalReservationName (id : ℕ) : Name := canonicalName .reservation id

/-- Source `parse_canonical_id`. -/
def parseCanonicalId (kind : FileKind) (name : Name) : Except GenerationError (Option ℕ) :=
  if ¬ kind.fixedPrefix <+: name then .ok none
  else if name.length ≠ kind.fixedPrefix.length + generationIdWidth + kind.fixedSuffix.length ∨
      ¬ kind.fixedSuffix <:+ name then
    .error (.invalid s!"malformed canonical {kind.label} name {(String.ofList name).quote}")
  else
    let digits := (name.drop kind.fixedPrefix.length).take generationIdWidth
    if ¬ digits.all isAsciiDigit then
      .error (.invalid
        s!"malformed canonical {kind.label} generation id in {(String.ofList name).quote}")
    else if u64Limit ≤ decValue digits then
      .error (.invalid s!"{kind.label} generation id does not fit u64")
    else if decValue digits = 0 ∨ decPad generationIdWidth (decValue digits) ≠ digits then
      .error (.invalid s!"non-canonical {kind.label} generation id in {(String.ofList name).quote}")
    else .ok (some (decValue digits))

/-- The first kind whose prefix a name has, with the id of the name. -/
def parseName (name : Name) : List FileKind → Except GenerationError (Option (FileKind × ℕ))
  | [] => .ok none
  | kind :: kinds => do
    match ← parseCanonicalId kind name with
    | some id => .ok (some (kind, id))
    | none => parseName name kinds

/-- Source `GenerationNamespace`: the ids of the files of every kind. -/
structure GenerationNamespace where
  generationFiles : Finset ℕ
  markerFiles : Finset ℕ
  stagingMarkerFiles : Finset ℕ
  reservationFiles : Finset ℕ
  deriving DecidableEq

namespace GenerationNamespace

def empty : GenerationNamespace := ⟨∅, ∅, ∅, ∅⟩

def files (ns : GenerationNamespace) : FileKind → Finset ℕ
  | .generation => ns.generationFiles
  | .commit => ns.markerFiles
  | .stagingCommit => ns.stagingMarkerFiles
  | .reservation => ns.reservationFiles

def insert (ns : GenerationNamespace) (kind : FileKind) (id : ℕ) : GenerationNamespace :=
  match kind with
  | .generation => { ns with generationFiles := Insert.insert id ns.generationFiles }
  | .commit => { ns with markerFiles := Insert.insert id ns.markerFiles }
  | .stagingCommit => { ns with stagingMarkerFiles := Insert.insert id ns.stagingMarkerFiles }
  | .reservation => { ns with reservationFiles := Insert.insert id ns.reservationFiles }

/-- Source `highest_observed_generation`; `⊥` where it is `None`. -/
def highestObservedGeneration (ns : GenerationNamespace) : WithBot ℕ :=
  (ns.generationFiles ∪ ns.markerFiles ∪ ns.stagingMarkerFiles ∪ ns.reservationFiles).max

variable {ns : GenerationNamespace} {kind kind' : FileKind} {id n : ℕ}

theorem mem_files_insert :
    n ∈ (ns.insert kind id).files kind' ↔ (kind' = kind ∧ n = id) ∨ n ∈ ns.files kind' := by
  cases kind <;> cases kind' <;> simp [insert, files]

theorem not_mem_files_empty : n ∉ empty.files kind := by
  cases kind <;> simp [empty, files]

theorem le_highestObservedGeneration {k : FileKind} (h : n ∈ ns.files k) :
    (n : WithBot ℕ) ≤ ns.highestObservedGeneration := by
  refine Finset.le_max ?_
  cases k <;> simp_all [files]

theorem exists_highest {k : FileKind} (h : n ∈ ns.files k) :
    ∃ highest, ns.highestObservedGeneration = some highest := by
  have hle := le_highestObservedGeneration h
  cases hcase : ns.highestObservedGeneration with
  | bot => simp [hcase] at hle
  | coe highest => exact ⟨highest, rfl⟩

theorem highestObservedGeneration_le {bound : WithBot ℕ}
    (h : ∀ kind, ∀ n ∈ ns.files kind, (n : WithBot ℕ) ≤ bound) :
    ns.highestObservedGeneration ≤ bound := by
  refine Finset.max_le fun n hn => ?_
  simp only [Finset.mem_union] at hn
  rcases hn with ((hn | hn) | hn) | hn
  · exact h .generation n hn
  · exact h .commit n hn
  · exact h .stagingCommit n hn
  · exact h .reservation n hn

end GenerationNamespace

def requireRealRegularFile (label : String) : Entry → Except GenerationError Unit
  | .regular _ => .ok ()
  | .other => .error (.invalid
      s!"{label} must be a real regular file rather than a symlink or non-file")

def requireEmptyReservationFile : Entry → Except GenerationError Unit
  | .regular bytes =>
    if bytes.length ≠ 0 then .error (.invalid "generation reservation must contain zero bytes")
    else .ok ()
  | .other => requireRealRegularFile "generation reservation" .other

/-- The body of the loop of `scan_generation_namespace`. -/
def scanEntry (ns : GenerationNamespace) (name : Name) (entry : Entry) :
    Except GenerationError GenerationNamespace := do
  match ← parseName name [.generation, .commit, .stagingCommit, .reservation] with
  | some (.reservation, id) => do
    requireEmptyReservationFile entry
    .ok (ns.insert .reservation id)
  | some (kind, id) => .ok (ns.insert kind id)
  | none =>
    .error (.invalid s!"unexpected generation directory entry {(String.ofList name).quote}")

/-- The loop of `scan_generation_namespace`, from an entry of index `index`. -/
def scanEntries : List (Name × Entry) → ℕ → GenerationNamespace →
    Except GenerationError GenerationNamespace
  | [], _, ns => .ok ns
  | (name, entry) :: entries, index, ns =>
    if maxDirectoryEntries ≤ index then
      .error (.invalid s!"generation directory contains more than {maxDirectoryEntries} entries")
    else do scanEntries entries (index + 1) (← scanEntry ns name entry)

/-- Source `scan_generation_namespace`. -/
def scanGenerationNamespace (d : Directory) : Except GenerationError GenerationNamespace :=
  scanEntries d.entries 0 .empty

section Names

variable {kind kind' : FileKind} {id id' : ℕ} {name : Name}

theorem canonicalName_length :
    (canonicalName kind id).length =
      kind.fixedPrefix.length + generationIdWidth + kind.fixedSuffix.length := by
  simp [canonicalName, decPad_length, Nat.add_assoc]

theorem u64Limit_le_pow : u64Limit ≤ 10 ^ generationIdWidth := by
  rw [u64Limit_eq]
  decide

/-- The kind of a canonical name is the one whose prefix it has. -/
theorem fixedPrefix_start : kind.fixedPrefix <+: canonicalName kind' id ↔ kind = kind' := by
  constructor
  · intro h
    have hown : kind'.fixedPrefix <+: canonicalName kind' id := List.prefix_append _ _
    have hor : kind.fixedPrefix <+: kind'.fixedPrefix ∨ kind'.fixedPrefix <+: kind.fixedPrefix :=
      List.prefix_or_prefix_of_prefix h hown
    revert hor
    cases kind <;> cases kind' <;> decide
  · rintro rfl
    exact List.prefix_append _ _

theorem digits_canonicalName :
    ((canonicalName kind id).drop kind.fixedPrefix.length).take generationIdWidth =
      decPad generationIdWidth id := by
  rw [canonicalName, List.drop_left, List.take_left' (decPad_length _ _)]

/-- A name is parsed as an id of a kind when it is the canonical name of the id. -/
theorem parseCanonicalId_eq_some :
    parseCanonicalId kind name = .ok (some id) ↔
      name = canonicalName kind id ∧ 0 < id ∧ id < u64Limit := by
  unfold parseCanonicalId
  constructor
  · intro h
    split at h
    · cases h
    rename_i hpre
    dsimp only at h
    simp only [Checked.guard_eq_ok, not_or, not_not, not_le, Except.ok.injEq, Option.some.injEq] at h
    obtain ⟨⟨hlen, hsuffix⟩, hdigits, hlt, ⟨hne, hpad⟩, rfl⟩ := h
    refine ⟨?_, Nat.pos_of_ne_zero hne, hlt⟩
    rw [not_not] at hpre
    obtain ⟨rest, rfl⟩ := hpre
    rw [List.drop_left] at hpad hlt hne ⊢
    rw [canonicalName, hpad, List.append_cancel_left_eq]
    rw [List.length_append, Nat.add_assoc, Nat.add_left_cancel_iff] at hlen
    obtain ⟨front, hfront⟩ := hsuffix
    have hrest : kind.fixedSuffix <:+ rest :=
      List.suffix_of_suffix_length_le ⟨front, hfront⟩ (List.suffix_append _ _) (by omega)
    obtain ⟨ds, rfl⟩ := hrest
    have hds : ds.length = generationIdWidth := by
      rw [List.length_append] at hlen
      omega
    rw [List.take_left' hds]
  · rintro ⟨rfl, hpos, hlt⟩
    have hvalue : decValue (decPad generationIdWidth id) = id :=
      decValue_decPad (hlt.trans_le u64Limit_le_pow)
    have hsuffix : kind.fixedSuffix <:+ canonicalName kind id := by
      rw [canonicalName, ← List.append_assoc]
      exact List.suffix_append _ _
    have hall : (decPad generationIdWidth id).all isAsciiDigit = true :=
      List.all_eq_true.2 (decPad_digits _ _)
    rw [if_neg (not_not.2 (fixedPrefix_start.2 rfl)),
      if_neg (not_or.2 ⟨not_not.2 canonicalName_length, not_not.2 hsuffix⟩)]
    dsimp only
    rw [digits_canonicalName, if_neg (not_not.2 hall), hvalue, if_neg (not_le.2 hlt),
      if_neg (not_or.2 ⟨Nat.pos_iff_ne_zero.1 hpos, not_not.2 rfl⟩)]

theorem parseCanonicalId_eq_none :
    parseCanonicalId kind name = .ok none ↔ ¬ kind.fixedPrefix <+: name := by
  unfold parseCanonicalId
  by_cases h : kind.fixedPrefix <+: name
  · rw [if_neg (not_not.2 h)]
    dsimp only
    simp [Checked.guard_eq_ok, h]
  · simp [h]

/-- The parsers of the kinds, one behind the other, read exactly the canonical names. -/
theorem parseName_eq_some {kinds : List FileKind} :
    parseName name kinds = .ok (some (kind, id)) ↔
      kind ∈ kinds ∧ name = canonicalName kind id ∧ 0 < id ∧ id < u64Limit := by
  induction kinds with
  | nil => simp [parseName]
  | cons first kinds ih =>
    rw [parseName, Checked.bind_eq_ok]
    constructor
    · rintro ⟨found, hparse, hrest⟩
      cases found with
      | some id' =>
        simp only [Except.ok.injEq, Option.some.injEq, Prod.mk.injEq] at hrest
        obtain ⟨rfl, rfl⟩ := hrest
        exact ⟨List.mem_cons_self, parseCanonicalId_eq_some.1 hparse⟩
      | none =>
        obtain ⟨hmem, hrest⟩ := ih.1 hrest
        exact ⟨List.mem_cons_of_mem _ hmem, hrest⟩
    · rintro ⟨hmem, rfl, hid⟩
      by_cases hfirst : first = kind
      · subst hfirst
        exact ⟨_, parseCanonicalId_eq_some.2 ⟨rfl, hid⟩, rfl⟩
      · refine ⟨none, parseCanonicalId_eq_none.2 (mt fixedPrefix_start.1 hfirst), ?_⟩
        exact ih.2 ⟨(List.mem_cons.1 hmem).resolve_left (Ne.symm hfirst), rfl, hid⟩

theorem canonicalName_injective (hid : id < u64Limit) (hid' : id' < u64Limit)
    (h : canonicalName kind id = canonicalName kind' id') : kind = kind' ∧ id = id' := by
  have hkind : kind = kind' := fixedPrefix_start.1 (h ▸ fixedPrefix_start.2 rfl)
  subst hkind
  refine ⟨rfl, ?_⟩
  have hdigits := congrArg (fun name => (name.drop kind.fixedPrefix.length).take generationIdWidth) h
  simp only [digits_canonicalName] at hdigits
  rw [← decValue_decPad (hid.trans_le u64Limit_le_pow), hdigits,
    decValue_decPad (hid'.trans_le u64Limit_le_pow)]

end Names

/-- The name and the entry that the scan reads as a file of a kind. -/
structure Admits (kind : FileKind) (id : ℕ) (name : Name) (entry : Entry) : Prop where
  name_eq : name = canonicalName kind id
  pos : 0 < id
  lt : id < u64Limit
  reservation_empty : kind = .reservation → entry = .regular []

section Scan

variable {kind : FileKind} {id : ℕ} {name : Name} {entry : Entry} {ns ns' : GenerationNamespace}
  {entries : List (Name × Entry)} {index : ℕ} {d : Directory}

theorem requireEmptyReservationFile_eq_ok {u : Unit} :
    requireEmptyReservationFile entry = .ok u ↔ entry = .regular [] := by
  cases entry with
  | regular bytes => simp [requireEmptyReservationFile]
  | other => simp [requireEmptyReservationFile, requireRealRegularFile]

theorem mem_fileKinds (kind : FileKind) :
    kind ∈ [FileKind.generation, .commit, .stagingCommit, .reservation] := by
  cases kind <;> decide

theorem scanEntry_eq_ok :
    scanEntry ns name entry = .ok ns' ↔ ∃ kind id, Admits kind id name entry ∧ ns' = ns.insert kind id := by
  rw [scanEntry, Checked.bind_eq_ok]
  constructor
  · rintro ⟨found, hparse, hrest⟩
    rcases found with _ | ⟨kind, id⟩
    · cases hrest
    obtain ⟨-, hname, hpos, hlt⟩ := parseName_eq_some.1 hparse
    refine ⟨kind, id, ⟨hname, hpos, hlt, ?_⟩, ?_⟩
    · rintro rfl
      obtain ⟨_, hempty, -⟩ := Checked.bind_eq_ok.1 hrest
      exact requireEmptyReservationFile_eq_ok.1 hempty
    · cases kind with
      | reservation =>
        obtain ⟨_, -, hns⟩ := Checked.bind_eq_ok.1 hrest
        exact (Except.ok.inj hns).symm
      | generation | commit | stagingCommit => exact (Except.ok.inj hrest).symm
  · rintro ⟨kind, id, hadmits, rfl⟩
    refine ⟨some (kind, id),
      parseName_eq_some.2 ⟨mem_fileKinds kind, hadmits.name_eq, hadmits.pos, hadmits.lt⟩, ?_⟩
    cases kind with
    | reservation =>
      refine Checked.bind_eq_ok.2 ⟨(), ?_, rfl⟩
      exact requireEmptyReservationFile_eq_ok.2 (hadmits.reservation_empty rfl)
    | generation | commit | stagingCommit => rfl

/-- What a successful scan has found. -/
theorem mem_files_of_scanEntries (h : scanEntries entries index ns = .ok ns') (kind : FileKind)
    (id : ℕ) :
    id ∈ ns'.files kind ↔
      id ∈ ns.files kind ∨ ∃ name entry, (name, entry) ∈ entries ∧ Admits kind id name entry := by
  induction entries generalizing index ns with
  | nil =>
    rw [scanEntries, Except.ok.injEq] at h
    simp [h]
  | cons first entries ih =>
    obtain ⟨name, entry⟩ := first
    simp only [scanEntries, Checked.guard_eq_ok, Checked.bind_eq_ok] at h
    obtain ⟨-, ns₁, hentry, hrest⟩ := h
    obtain ⟨kind₁, id₁, hadmits, rfl⟩ := scanEntry_eq_ok.1 hentry
    rw [ih hrest, GenerationNamespace.mem_files_insert]
    constructor
    · rintro ((⟨rfl, rfl⟩ | h) | ⟨name', entry', hmem, h⟩)
      · exact .inr ⟨name, entry, List.mem_cons_self, hadmits⟩
      · exact .inl h
      · exact .inr ⟨name', entry', List.mem_cons_of_mem _ hmem, h⟩
    · rintro (h | ⟨name', entry', hmem, h⟩)
      · exact .inl (.inr h)
      · rcases List.mem_cons.1 hmem with heq | hmem
        · obtain ⟨rfl, rfl⟩ := Prod.mk.inj heq
          obtain ⟨rfl, rfl⟩ :=
            canonicalName_injective h.lt hadmits.lt (h.name_eq.symm.trans hadmits.name_eq)
          exact .inl (.inl ⟨rfl, rfl⟩)
        · exact .inr ⟨name', entry', hmem, h⟩

theorem scanEntries_isOk :
    (∃ ns', scanEntries entries index ns = .ok ns') ↔
      (entries = [] ∨ index + entries.length ≤ maxDirectoryEntries) ∧
        ∀ name entry, (name, entry) ∈ entries → ∃ kind id, Admits kind id name entry := by
  induction entries generalizing index ns with
  | nil => simp [scanEntries]
  | cons first entries ih =>
    obtain ⟨name, entry⟩ := first
    have hlength : (¬ maxDirectoryEntries ≤ index ∧
        (entries = [] ∨ index + 1 + entries.length ≤ maxDirectoryEntries)) ↔
        index + (entries.length + 1) ≤ maxDirectoryEntries := by
      constructor
      · rintro ⟨hlt, rfl | hle⟩
        · simpa using hlt
        · omega
      · intro hle
        exact ⟨by omega, .inr (by omega)⟩
    simp only [scanEntries, Checked.guard_eq_ok, Checked.bind_eq_ok, List.length_cons, reduceCtorEq,
      false_or, ← hlength, List.mem_cons, Prod.mk.injEq]
    constructor
    · rintro ⟨ns', hle, ns₁, hentry, hrest⟩
      obtain ⟨hlen, hall⟩ := ih.1 ⟨_, hrest⟩
      refine ⟨⟨hle, hlen⟩, ?_⟩
      rintro name' entry' (⟨rfl, rfl⟩ | hmem)
      · obtain ⟨kind, id, hadmits, -⟩ := scanEntry_eq_ok.1 hentry
        exact ⟨kind, id, hadmits⟩
      · exact hall _ _ hmem
    · rintro ⟨⟨hle, hlen⟩, hall⟩
      obtain ⟨kind, id, hadmits⟩ := hall name entry (.inl ⟨rfl, rfl⟩)
      obtain ⟨ns', hrest⟩ := ih.2 ⟨hlen, fun name entry h => hall name entry (.inr h)⟩
      exact ⟨ns', hle, _, scanEntry_eq_ok.2 ⟨kind, id, hadmits, rfl⟩, hrest⟩

/-- An entry of a closed namespace. -/
theorem mem_files_of_scan {k : FileKind} (h : scanGenerationNamespace d = .ok ns) :
    id ∈ ns.files k ↔ d.Has (canonicalName k id) ∧ 0 < id ∧ id < u64Limit := by
  rw [mem_files_of_scanEntries h, or_iff_right GenerationNamespace.not_mem_files_empty,
    Directory.has_iff_exists]
  constructor
  · rintro ⟨name, entry, hmem, hadmits⟩
    exact ⟨⟨entry, hadmits.name_eq ▸ hmem⟩, hadmits.pos, hadmits.lt⟩
  · rintro ⟨⟨entry, hmem⟩, hpos, hlt⟩
    obtain ⟨-, hall⟩ := scanEntries_isOk.1 ⟨_, h⟩
    obtain ⟨kind', id', hadmits⟩ := hall _ _ hmem
    obtain ⟨rfl, rfl⟩ := canonicalName_injective hlt hadmits.lt hadmits.name_eq
    exact ⟨_, entry, hmem, hadmits⟩

/-- The scan accepts a directory that is not too large and has only files of the four kinds. -/
theorem scan_isOk :
    (∃ ns, scanGenerationNamespace d = .ok ns) ↔
      d.entries.length ≤ maxDirectoryEntries ∧
        ∀ name entry, d.find name = some entry → ∃ kind id, Admits kind id name entry := by
  rw [scanGenerationNamespace, scanEntries_isOk, Nat.zero_add]
  simp only [Directory.find_eq_some]
  refine and_congr_left fun _ => ⟨?_, .inr⟩
  rintro (h | h)
  · simp [h]
  · exact h

end Scan

end DbLab.Generation
