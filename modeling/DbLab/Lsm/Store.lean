import DbLab.Lib.Prog
import DbLab.Lsm.SsTable
import DbLab.Lsm.Wal

/-!
# The directory of an LSM engine

The four families of files: segments of the write-ahead log, sorted tables, manifests, and `CURRENT` with
its two slots. Manifests and tables are taken as what can be read of them, since their checksums reject
a file that was written in part. Every access can fail: the outcomes of the accesses to come are a list,
and a list that has run out stands for accesses that succeed. A crash is a list whose accesses all fail
from some point on, behind which the handle is dropped.
-/

namespace DbLab.Lsm

structure VersionSet where
  currentGeneration : ℕ
  manifestId : ℕ
  durableSequence : ℕ
  tombstoneGcSequence : ℕ
  tableIdHighWatermark : ℕ
  walId : ℕ
  walFirstSequence : ℕ
  tables : List SstableDescriptor
  deriving DecidableEq

inductive ManifestFile
  | complete (version : VersionSet)
  | damaged
  deriving DecidableEq

structure CurrentSlot where
  generation : ℕ
  manifestId : ℕ
  deriving DecidableEq

/-- The slots of `CURRENT`, as far as they can be read, or a file that is not as long as two slots. -/
inductive CurrentFile
  | slots (first second : Option CurrentSlot)
  | short
  deriving DecidableEq

structure Files where
  wals : SortedMap ℕ Bytes
  tables : SortedMap ℕ TableFile
  manifests : SortedMap ℕ ManifestFile
  current : Option CurrentFile
  /-- Entries that no name of the engine belongs to. -/
  unknown : List String
  deriving DecidableEq

/-- The outcome of one access. -/
inductive Io
  | success
  /-- Nothing happens. -/
  | refused
  /-- The first bytes are written. -/
  | torn (written : ℕ)
  /-- Everything happens, and an error is reported. -/
  | late
  deriving DecidableEq

inductive FileName
  | wal (id : ℕ)
  | table (id : ℕ)
  | manifest (id : ℕ)
  | current
  deriving DecidableEq

/-- What the history of a directory keeps, for the proofs only. -/
inductive Event
  /-- A file is created under a name, at which there was a file or not. -/
  | created (name : FileName) (present : Bool)
  /-- A slot of `CURRENT` names a version set with these tables. -/
  | published (tableIds : List ℕ)
  deriving DecidableEq

/-- The latest event first. -/
abbrev History := List Event

structure Store where
  files : Files
  /-- The outcomes of the accesses to come. -/
  io : List Io
  history : History
  deriving DecidableEq

abbrev StoreProg := Prog Store DbError

def ioFault : DbError := .io "input/output error"
def alreadyExists : DbError := .io "File exists"
def notFound : DbError := .io "No such file or directory"

def Files.empty : Files := ⟨.empty, .empty, .empty, none, []⟩

namespace Store

/-- One access, with its outcome and the events it leaves. -/
def access {α : Type} (events : Io → Files → List Event) (f : Io → Files → Except DbError α × Files) :
    StoreProg α := fun s =>
  ((f (s.io.headD .success) s.files).1,
    { files := (f (s.io.headD .success) s.files).2
      io := s.io.tail
      history := events (s.io.headD .success) s.files ++ s.history })

/-- An access that the history does not keep. -/
def noEvents : Io → Files → List Event := fun _ _ => []

/-- Read the directory. -/
def reading {α : Type} (f : Files → Except DbError α) : StoreProg α :=
  access noEvents fun io files => if io = .success then (f files, files) else (.error ioFault, files)

/-- Create a file with the contents `whole`, of which an interrupted write leaves `part`. -/
def creating {β : Type} (name : FileName) (find : Files → Option β) (put : β → Files → Files) (whole : β)
    (part : ℕ → β) : StoreProg Unit :=
  access (fun _ files => [.created name (find files).isSome]) fun io files =>
    match find files, io with
    | some _, _ => (.error alreadyExists, files)
    | none, .success => (.ok (), put whole files)
    | none, .refused => (.error ioFault, files)
    | none, .torn written => (.error ioFault, put (part written) files)
    | none, .late => (.error ioFault, put whole files)

def putWal (id : ℕ) (bytes : Bytes) (files : Files) : Files :=
  { files with wals := files.wals.insert id bytes }

def putTable (id : ℕ) (table : TableFile) (files : Files) : Files :=
  { files with tables := files.tables.insert id table }

def putManifest (id : ℕ) (manifest : ManifestFile) (files : Files) : Files :=
  { files with manifests := files.manifests.insert id manifest }

def putCurrent (current : CurrentFile) (files : Files) : Files := { files with current := some current }

def createWal (id : ℕ) (bytes : Bytes) : StoreProg Unit :=
  creating (.wal id) (fun files => files.wals.find id) (putWal id) bytes fun written => bytes.take written

def createTable (id : ℕ) (content : TableContent) : StoreProg Unit :=
  creating (.table id) (fun files => files.tables.find id) (putTable id) (.complete content) fun _ => .damaged

def createManifest (id : ℕ) (version : VersionSet) : StoreProg Unit :=
  creating (.manifest id) (fun files => files.manifests.find id) (putManifest id) (.complete version) fun _ => .damaged

def createCurrent (slot : CurrentSlot) : StoreProg Unit :=
  creating .current Files.current putCurrent (.slots (some slot) (some slot)) fun _ => .short

/-- Set the slot that the parity of the generation selects. A file that is too short stays so. -/
def setSlot (generation : ℕ) (slot : Option CurrentSlot) : CurrentFile → CurrentFile
  | .slots first second => if generation % 2 = 0 then .slots slot second else .slots first slot
  | .short => .short

/-- The tables that a manifest lists. -/
def listedIds (manifestId : ℕ) (files : Files) : List ℕ :=
  match files.manifests.find manifestId with
  | some (.complete version) => version.tables.map SstableDescriptor.tableId
  | _ => []

/-- A slot that is written whole publishes the version set of its manifest. -/
def publishes (manifestId : ℕ) (io : Io) (files : Files) : List Event :=
  if files.current.isSome ∧ (io = .success ∨ io = .late) then [.published (listedIds manifestId files)] else []

/-- Source `write_current_slot`. -/
def writeCurrentSlot (generation manifestId : ℕ) : StoreProg Unit :=
  access (publishes manifestId) fun io files =>
    match files.current, io with
    | none, _ => (.error notFound, files)
    | some current, .success => (.ok (), putCurrent (setSlot generation (some ⟨generation, manifestId⟩) current) files)
    | some _, .refused => (.error ioFault, files)
    | some current, .torn _ => (.error ioFault, putCurrent (setSlot generation none current) files)
    | some current, .late =>
      (.error ioFault, putCurrent (setSlot generation (some ⟨generation, manifestId⟩) current) files)

/-- Replace the bytes of a segment; an interrupted write leaves `part`. -/
def rewriteWal (id : ℕ) (whole : Bytes) (part : ℕ → Bytes) : StoreProg Unit :=
  access noEvents fun io files =>
    match files.wals.find id, io with
    | none, _ => (.error notFound, files)
    | some _, .success => (.ok (), putWal id whole files)
    | some _, .refused => (.error ioFault, files)
    | some _, .torn written => (.error ioFault, putWal id (part written) files)
    | some _, .late => (.error ioFault, putWal id whole files)

/-- Remove one file, and go on when that fails. -/
def removeQuietly (remove : Files → Files) : StoreProg Unit :=
  access noEvents fun io files =>
    match io with
    | .success => (.ok (), remove files)
    | .late => (.ok (), remove files)
    | .refused => (.ok (), files)
    | .torn _ => (.ok (), files)

/-- Remove the files that `list` finds, and nothing when the directory cannot be listed. -/
def reclaim (list : Files → List ℕ) (remove : ℕ → Files → Files) : StoreProg Unit := do
  let listed ← access noEvents fun io files =>
    if io = .success then (.ok (list files), files) else (.ok [], files)
  listed.forM fun id => removeQuietly (remove id)

/-! ### Rules

What the error cases of a program reach is stated by one predicate of the directory and its history. -/

/-- Every error leaves a directory with `I`. -/
def Fails (I : Files → History → Prop) : DbError → Store → Prop := fun _ s => I s.files s.history

variable {s : Store} {α β : Type} {I : Files → History → Prop}

theorem wp_access {events : Io → Files → List Event} {f : Io → Files → Except DbError α × Files}
    {Q : α → Store → Prop} {E : DbError → Store → Prop}
    (h : ∀ io rest, match f io s.files with
      | (.ok a, files) => Q a ⟨files, rest, events io s.files ++ s.history⟩
      | (.error e, files) => E e ⟨files, rest, events io s.files ++ s.history⟩) :
    Prog.wp (access events f) Q E s := by
  have hcase := h (s.io.headD .success) s.io.tail
  unfold Prog.wp access
  rcases hf : f (s.io.headD .success) s.files with ⟨e | a, files⟩
  · rw [hf] at hcase
    exact hcase
  · rw [hf] at hcase
    exact hcase

theorem wp_check {x : Except DbError α} {Q : α → Store → Prop} (hI : I s.files s.history)
    (hok : ∀ a, x = .ok a → Q a s) : Prog.wp (Prog.ofExcept x) Q (Fails I) s := by
  rw [Prog.wp_ofExcept]
  exact ⟨hok, fun _ _ => hI⟩

theorem wp_reading {f : Files → Except DbError α} {Q : α → Store → Prop} (hI : I s.files s.history)
    (hok : ∀ a rest, f s.files = .ok a → Q a ⟨s.files, rest, s.history⟩) :
    Prog.wp (reading f) Q (Fails I) s := by
  refine wp_access fun io rest => ?_
  by_cases hio : io = .success
  · rw [if_pos hio]
    cases hf : f s.files with
    | ok a => exact hok a rest hf
    | error e => exact hI
  · rw [if_neg hio]
    exact hI

theorem wp_creating {name : FileName} {find : Files → Option β} {put : β → Files → Files} {whole : β}
    {part : ℕ → β} {Q : Unit → Store → Prop}
    (hexists : (find s.files).isSome → I s.files (.created name true :: s.history))
    (hsame : find s.files = none → I s.files (.created name false :: s.history))
    (hput : find s.files = none → ∀ b, (b = whole ∨ ∃ written, b = part written) →
      I (put b s.files) (.created name false :: s.history))
    (hok : ∀ rest, find s.files = none →
      Q () ⟨put whole s.files, rest, .created name false :: s.history⟩) :
    Prog.wp (creating name find put whole part) Q (Fails I) s := by
  refine wp_access fun io rest => ?_
  cases hfind : find s.files with
  | some b => exact hexists (by rw [hfind]; rfl)
  | none =>
    cases io with
    | success => exact hok rest hfind
    | refused => exact hsame hfind
    | torn written => exact hput hfind _ (.inr ⟨written, rfl⟩)
    | late => exact hput hfind _ (.inl rfl)

/-- How a write to a slot ends: torn, or whole and published. -/
def SlotWrite (target : CurrentSlot) (tableIds : List ℕ) (slot : Option CurrentSlot)
    (events : List Event) : Prop :=
  slot = none ∧ events = [] ∨ slot = some target ∧ events = [.published tableIds]

theorem SlotWrite.slot_eq {target : CurrentSlot} {tableIds : List ℕ} {slot : Option CurrentSlot}
    {events : List Event} (h : SlotWrite target tableIds slot events) : slot = none ∨ slot = some target :=
  h.imp And.left And.left

theorem wp_writeCurrentSlot {generation manifestId : ℕ} {Q : Unit → Store → Prop}
    (hI : I s.files s.history)
    (hput : ∀ current slot events, s.files.current = some current →
      SlotWrite ⟨generation, manifestId⟩ (listedIds manifestId s.files) slot events →
      I (putCurrent (setSlot generation slot current) s.files) (events ++ s.history))
    (hok : ∀ rest current, s.files.current = some current →
      Q () ⟨putCurrent (setSlot generation (some ⟨generation, manifestId⟩) current) s.files, rest,
        .published (listedIds manifestId s.files) :: s.history⟩) :
    Prog.wp (writeCurrentSlot generation manifestId) Q (Fails I) s := by
  refine wp_access fun io rest => ?_
  cases hcurrent : s.files.current with
  | none =>
    rw [publishes, hcurrent, if_neg fun h => absurd h.1 (by simp)]
    exact hI
  | some current =>
    have hsome : s.files.current.isSome := by
      rw [hcurrent]
      rfl
    cases io with
    | success =>
      rw [publishes, if_pos ⟨hsome, .inl rfl⟩]
      exact hok rest current hcurrent
    | refused =>
      rw [publishes, if_neg fun h => absurd h.2 (by simp)]
      exact hI
    | torn written =>
      rw [publishes, if_neg fun h => absurd h.2 (by simp)]
      exact hput current none [] hcurrent (.inl ⟨rfl, rfl⟩)
    | late =>
      rw [publishes, if_pos ⟨hsome, .inr rfl⟩]
      exact hput current _ _ hcurrent (.inr ⟨rfl, rfl⟩)

theorem wp_rewriteWal {id : ℕ} {whole : Bytes} {part : ℕ → Bytes} {Q : Unit → Store → Prop}
    (hI : I s.files s.history)
    (hput : (s.files.wals.find id).isSome → ∀ bytes, (bytes = whole ∨ ∃ written, bytes = part written) →
      I (putWal id bytes s.files) s.history)
    (hok : ∀ rest, (s.files.wals.find id).isSome → Q () ⟨putWal id whole s.files, rest, s.history⟩) :
    Prog.wp (rewriteWal id whole part) Q (Fails I) s := by
  refine wp_access fun io rest => ?_
  cases hfind : s.files.wals.find id with
  | none => exact hI
  | some bytes =>
    have hsome : (s.files.wals.find id).isSome := by
      rw [hfind]
      rfl
    cases io with
    | success => exact hok rest hsome
    | refused => exact hI
    | torn written => exact hput hsome _ (.inr ⟨written, rfl⟩)
    | late => exact hput hsome _ (.inl rfl)

/-- A reclamation keeps what every single removal keeps, and never fails. -/
theorem wp_reclaim {list : Files → List ℕ} {remove : ℕ → Files → Files} {E : DbError → Store → Prop}
    (hstart : I s.files s.history)
    (hstep : ∀ id ∈ list s.files, ∀ files, I files s.history → I (remove id files) s.history) :
    Prog.wp (reclaim list remove) (fun _ s' => I s'.files s'.history) E s := by
  have hremove : ∀ id ∈ list s.files, ∀ t : Store, t.history = s.history ∧ I t.files s.history →
      Prog.wp (removeQuietly (remove id)) (fun _ t' => t'.history = s.history ∧ I t'.files s.history) E t := by
    intro id hid t ht
    refine wp_access fun io rest => ?_
    cases io with
    | success => exact ⟨ht.1, hstep id hid _ ht.2⟩
    | refused => exact ht
    | torn written => exact ht
    | late => exact ⟨ht.1, hstep id hid _ ht.2⟩
  have hall : ∀ ids : List ℕ, (∀ id ∈ ids, id ∈ list s.files) → ∀ t : Store,
      t.history = s.history ∧ I t.files s.history →
      Prog.wp (ids.forM fun id => removeQuietly (remove id))
        (fun _ t' => t'.history = s.history ∧ I t'.files s.history) E t := by
    intro ids hids
    induction ids with
    | nil =>
      intro t ht
      exact ht
    | cons id ids ih =>
      intro t ht
      show Prog.wp (removeQuietly (remove id) >>= fun _ => ids.forM fun id => removeQuietly (remove id)) _ E t
      rw [Prog.wp_bind]
      refine Prog.wp_mono (hremove id (hids id List.mem_cons_self) t ht) (fun _ t' ht' => ?_) fun _ _ he => he
      exact ih (fun id hid => hids id (List.mem_cons_of_mem _ hid)) t' ht'
  rw [reclaim, Prog.wp_bind]
  refine wp_access fun io rest => ?_
  by_cases hio : io = .success
  · rw [if_pos hio]
    refine Prog.wp_mono (hall _ (fun id hid => hid) _ ⟨rfl, hstart⟩) (fun _ t ht => ?_) fun _ _ he => he
    rw [ht.1]
    exact ht.2
  · rw [if_neg hio]
    exact hstart

end Store
end DbLab.Lsm
