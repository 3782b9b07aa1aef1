import DbLab.Lsm.Backed
import DbLab.Lsm.FileRuns

/-!
# The names of the files

A name is written with at least sixteen digits and read with exactly sixteen. So a name reads back as the
file that it was made for exactly when its number is below `10 ^ 16`, and the invariant of the directory is
that each of its files has such a number, or was created by the engine.
-/

namespace DbLab.Lsm

/-! ### Reading a name -/

def stripFront (front cs : List Char) : Option (List Char) :=
  if cs.take front.length = front then some (cs.drop front.length) else none

def stripBack (back cs : List Char) : Option (List Char) :=
  if cs.drop (cs.length - back.length) = back then some (cs.take (cs.length - back.length)) else none

/-- Source `parse_numbered_name`. -/
def parseNumberedName (name front back : String) : Option ℕ := do
  let rest ← stripFront front.toList name.toList
  let digits ← stripBack back.toList rest
  if digits.length ≠ 16 ∨ ¬ digits.all Char.isDigit then none
  else if Nat.ofDigitChars 10 digits 0 = 0 then none
  else some (Nat.ofDigitChars 10 digits 0)

/-- What `validate_layout` takes a name for. -/
def readName (name : String) : Option FileName :=
  if name = "CURRENT" then some .current
  else ((parseNumberedName name "wal-" ".log").map .wal).or
    (((parseNumberedName name "MANIFEST-" "").map .manifest).or
      ((parseNumberedName name "sst-" ".sst").map .table))

namespace FileName

def text : FileName → String
  | wal id => walFileName id
  | table id => sstableFileName id
  | manifest id => manifestFileName id
  | current => "CURRENT"

/-- A name whose number has at most sixteen digits, and is not zero. -/
def Canonical : FileName → Prop
  | wal id => CanonicalId id
  | table id => CanonicalId id
  | manifest id => CanonicalId id
  | current => True

instance : (name : FileName) → Decidable name.Canonical
  | wal id => inferInstanceAs (Decidable (CanonicalId id))
  | table id => inferInstanceAs (Decidable (CanonicalId id))
  | manifest id => inferInstanceAs (Decidable (CanonicalId id))
  | current => inferInstanceAs (Decidable True)

end FileName

section Names

variable {front back cs : List Char} {id : ℕ}

theorem stripFront_append : stripFront front (front ++ cs) = some cs := by
  simp [stripFront]

theorem stripBack_append : stripBack back (cs ++ back) = some cs := by
  simp [stripBack]

theorem stripFront_cons_ne {c d : Char} (h : c ≠ d) : stripFront (c :: front) (d :: cs) = none := by
  simp [stripFront, h.symm]

theorem toList_pad16 : (pad16 id).toList =
    List.replicate (16 - (Nat.toDigits 10 id).length) '0' ++ Nat.toDigits 10 id := by
  simp [pad16]

theorem all_isDigit_pad16 : (pad16 id).toList.all Char.isDigit = true := by
  rw [List.all_eq_true, toList_pad16]
  intro c hc
  rw [List.mem_append] at hc
  rcases hc with hc | hc
  · rw [List.eq_of_mem_replicate hc]
    rfl
  · exact Nat.isDigit_of_mem_toDigits (by decide) (by decide) hc

theorem ofDigitChars_pad16 : Nat.ofDigitChars 10 (pad16 id).toList 0 = id := by
  rw [toList_pad16, Nat.ofDigitChars_append, Nat.ofDigitChars_replicate_zero, mul_zero,
    Nat.ofDigitChars_ten_toDigits]

/-- The width is sixteen digits exactly below `10 ^ 16`. -/
theorem length_pad16 : (pad16 id).toList.length = 16 ↔ id < 10 ^ 16 := by
  rw [toList_pad16, List.length_append, List.length_replicate,
    ← @Nat.length_toDigits_le_iff 10 id 16 (by decide) (by decide)]
  omega

theorem parseNumberedName_pad16 {name front back : String}
    (h : name.toList = front.toList ++ ((pad16 id).toList ++ back.toList)) :
    parseNumberedName name front back = if CanonicalId id then some id else none := by
  simp only [parseNumberedName, h, stripFront_append, stripBack_append, Option.bind_eq_bind, Option.bind_some,
    all_isDigit_pad16, ofDigitChars_pad16, ne_eq, length_pad16, not_true, or_false, CanonicalId]
  by_cases hlt : id < 10 ^ 16
  · by_cases hzero : id = 0
    · simp [hzero]
    · simp only [hlt, hzero, not_true, if_false, and_true, Nat.pos_of_ne_zero hzero, if_true]
  · simp only [hlt, not_false_eq_true, if_true, and_false, if_false]

theorem parseNumberedName_ne {name front back : String} {c d : Char} {cs front' : List Char}
    (hname : name.toList = d :: cs) (hfront : front.toList = c :: front') (h : c ≠ d) :
    parseNumberedName name front back = none := by
  rw [parseNumberedName, hname, hfront, stripFront_cons_ne h]
  rfl

theorem toList_walFileName : (walFileName id).toList = "wal-".toList ++ ((pad16 id).toList ++ ".log".toList) := by
  simp [walFileName, toString]

theorem toList_manifestFileName :
    (manifestFileName id).toList = "MANIFEST-".toList ++ ((pad16 id).toList ++ "".toList) := by
  simp [manifestFileName, toString]

theorem toList_sstableFileName :
    (sstableFileName id).toList = "sst-".toList ++ ((pad16 id).toList ++ ".sst".toList) := by
  simp [sstableFileName, toString]

/-- **A name reads back exactly when its number has at most sixteen digits.** -/
theorem readName_text (name : FileName) :
    readName name.text = if name.Canonical then some name else none := by
  have hhead : ∀ {name : String} {c : Char} {cs : List Char}, name.toList = c :: cs → c ≠ 'C' →
      name ≠ "CURRENT" := by
    rintro _ c cs hname hc rfl
    exact hc (List.cons.inj hname).1.symm
  cases name with
  | current => rfl
  | wal id =>
    rw [readName, FileName.text, if_neg (hhead toList_walFileName (by decide)),
      parseNumberedName_pad16 toList_walFileName,
      parseNumberedName_ne toList_walFileName (show "MANIFEST-".toList = 'M' :: "ANIFEST-".toList from rfl) (by decide),
      parseNumberedName_ne toList_walFileName (show "sst-".toList = 's' :: "st-".toList from rfl) (by decide)]
    by_cases h : CanonicalId id
    · simp [FileName.Canonical, h]
    · simp [FileName.Canonical, h]
  | manifest id =>
    rw [readName, FileName.text, if_neg (hhead toList_manifestFileName (by decide)),
      parseNumberedName_pad16 toList_manifestFileName,
      parseNumberedName_ne toList_manifestFileName (show "wal-".toList = 'w' :: "al-".toList from rfl) (by decide),
      parseNumberedName_ne toList_manifestFileName (show "sst-".toList = 's' :: "st-".toList from rfl) (by decide)]
    by_cases h : CanonicalId id
    · simp [FileName.Canonical, h]
    · simp [FileName.Canonical, h]
  | table id =>
    rw [readName, FileName.text, if_neg (hhead toList_sstableFileName (by decide)),
      parseNumberedName_pad16 toList_sstableFileName,
      parseNumberedName_ne toList_sstableFileName (show "wal-".toList = 'w' :: "al-".toList from rfl) (by decide),
      parseNumberedName_ne toList_sstableFileName (show "MANIFEST-".toList = 'M' :: "ANIFEST-".toList from rfl) (by decide)]
    by_cases h : CanonicalId id
    · simp [FileName.Canonical, h]
    · simp [FileName.Canonical, h]

end Names

/-! ### The files of a directory -/

open Store LsmEngine

variable {α β : Type} {files : Files} {history : History}

/-- A file whose name was canonical from the start, or that the engine has created. -/
def Accounted (history : History) (name : FileName) : Prop :=
  name.Canonical ∨ .created name false ∈ history

/-- Every file is accounted for. -/
structure AllAccounted (files : Files) (history : History) : Prop where
  wals : ∀ id, (files.wals.find id).isSome → Accounted history (.wal id)
  tables : ∀ id, (files.tables.find id).isSome → Accounted history (.table id)
  manifests : ∀ id, (files.manifests.find id).isSome → Accounted history (.manifest id)
  unknown : files.unknown = []

theorem Accounted.event {name : FileName} (h : Accounted history name) (event : Event) :
    Accounted (event :: history) name :=
  h.imp_right (List.mem_cons_of_mem _)

theorem AllAccounted.event (h : AllAccounted files history) (event : Event) : AllAccounted files (event :: history) where
  wals id hid := (h.wals id hid).event event
  tables id hid := (h.tables id hid).event event
  manifests id hid := (h.manifests id hid).event event
  unknown := h.unknown

theorem isSome_find_insert {m : SortedMap ℕ β} {id id' : ℕ} {b : β} (h : ((m.insert id b).find id').isSome) :
    id' = id ∨ (m.find id').isSome := by
  rw [SortedMap.find_insert] at h
  by_cases heq : id' = id
  · exact .inl heq
  · right
    rw [if_neg (by simpa [eq_comm] using heq)] at h
    exact h

theorem isSome_find_erase {m : SortedMap ℕ β} {id id' : ℕ} (h : ((m.erase id).find id').isSome) :
    (m.find id').isSome := by
  rw [SortedMap.find_erase] at h
  by_cases heq : id' = id
  · simp [heq] at h
  · rwa [if_neg heq] at h

theorem AllAccounted.putWal {id : ℕ} {bytes : Bytes} (h : AllAccounted files history) (hid : Accounted history (.wal id)) :
    AllAccounted (putWal id bytes files) history where
  wals id' hsome := by
    rcases isSome_find_insert hsome with rfl | hsome
    · exact hid
    · exact h.wals id' hsome
  tables := h.tables
  manifests := h.manifests
  unknown := h.unknown

theorem AllAccounted.putTable {id : ℕ} {table : TableFile} (h : AllAccounted files history) (hid : Accounted history (.table id)) :
    AllAccounted (putTable id table files) history where
  wals := h.wals
  tables id' hsome := by
    rcases isSome_find_insert hsome with rfl | hsome
    · exact hid
    · exact h.tables id' hsome
  manifests := h.manifests
  unknown := h.unknown

theorem AllAccounted.putManifest {id : ℕ} {manifest : ManifestFile} (h : AllAccounted files history)
    (hid : Accounted history (.manifest id)) : AllAccounted (putManifest id manifest files) history where
  wals := h.wals
  tables := h.tables
  manifests id' hsome := by
    rcases isSome_find_insert hsome with rfl | hsome
    · exact hid
    · exact h.manifests id' hsome
  unknown := h.unknown

theorem AllAccounted.putCurrent {current : CurrentFile} (h : AllAccounted files history) :
    AllAccounted (putCurrent current files) history := ⟨h.wals, h.tables, h.manifests, h.unknown⟩

theorem AllAccounted.removeTable {id : ℕ} (h : AllAccounted files history) : AllAccounted (removeTable id files) history :=
  ⟨h.wals, fun id' hsome => h.tables id' (isSome_find_erase hsome), h.manifests, h.unknown⟩

theorem AllAccounted.removeManifest {id : ℕ} (h : AllAccounted files history) : AllAccounted (removeManifest id files) history :=
  ⟨h.wals, h.tables, fun id' hsome => h.manifests id' (isSome_find_erase hsome), h.unknown⟩

theorem AllAccounted.removeWal {id : ℕ} (h : AllAccounted files history) : AllAccounted (removeWal id files) history :=
  ⟨fun id' hsome => h.wals id' (isSome_find_erase hsome), h.tables, h.manifests, h.unknown⟩

/-! ### Programs that keep the files accounted for -/

/-- Whatever its result, the program leaves a directory whose files are accounted for. -/
def Accounts (x : StoreProg α) : Prop :=
  ∀ s : Store, AllAccounted s.files s.history → AllAccounted (x s).2.files (x s).2.history

theorem accounts_pure (a : α) : Accounts (pure a : StoreProg α) := fun _ h => h

theorem accounts_ofExcept (x : Except DbError α) : Accounts (Prog.ofExcept x) := fun _ h => h

theorem Accounts.bind {x : StoreProg α} {f : α → StoreProg β} (hx : Accounts x) (hf : ∀ a, Accounts (f a)) :
    Accounts (x >>= f) := by
  intro s h
  have hafter := hx s h
  cases hrun : x s with
  | mk result t =>
    rw [hrun] at hafter
    cases result with
    | ok a =>
      rw [Prog.bind_ok hrun]
      exact hf a t hafter
    | error e =>
      rw [Prog.bind_error hrun]
      exact hafter

theorem accounts_access {events : Io → Files → List Event} {f : Io → Files → Except DbError α × Files}
    (h : ∀ io files history, AllAccounted files history → AllAccounted (f io files).2 (events io files ++ history)) :
    Accounts (access events f) := fun _ hs => h _ _ _ hs

theorem accounts_reading {f : Files → Except DbError α} : Accounts (reading f) := by
  refine accounts_access fun io files history h => ?_
  split_ifs
  · exact h
  · exact h

/-- A creation accounts for the file that it makes. -/
theorem accounts_creating {name : FileName} {find : Files → Option β} {put : β → Files → Files} {whole : β}
    {part : ℕ → β} (hput : ∀ b files history, AllAccounted files history → Accounted history name →
      AllAccounted (put b files) history) : Accounts (creating name find put whole part) := by
  refine accounts_access fun io files history h => ?_
  cases hfind : find files with
  | some b => exact h.event _
  | none =>
    have hcreated : Accounted (.created name false :: history) name := .inr List.mem_cons_self
    cases io with
    | success => exact hput _ _ _ (h.event _) hcreated
    | refused => exact h.event _
    | torn written => exact hput _ _ _ (h.event _) hcreated
    | late => exact hput _ _ _ (h.event _) hcreated

theorem accounts_createWal (id : ℕ) (bytes : Bytes) : Accounts (createWal id bytes) :=
  accounts_creating fun _ _ _ h hid => h.putWal hid

theorem accounts_createTable (id : ℕ) (content : TableContent) : Accounts (createTable id content) :=
  accounts_creating fun _ _ _ h hid => h.putTable hid

theorem accounts_createManifest (id : ℕ) (version : VersionSet) : Accounts (createManifest id version) :=
  accounts_creating fun _ _ _ h hid => h.putManifest hid

theorem accounts_createCurrent (slot : CurrentSlot) : Accounts (createCurrent slot) :=
  accounts_creating fun _ _ _ h _ => h.putCurrent

theorem accounts_writeCurrentSlot (generation manifestId : ℕ) : Accounts (writeCurrentSlot generation manifestId) := by
  refine accounts_access fun io files history h => ?_
  have hevents : AllAccounted files (publishes manifestId io files ++ history) := by
    unfold publishes
    split_ifs
    · exact h.event _
    · exact h
  cases hcurrent : files.current with
  | none => exact hevents
  | some current =>
    cases io with
    | success => exact hevents.putCurrent
    | refused => exact hevents
    | torn written => exact hevents.putCurrent
    | late => exact hevents.putCurrent

/-- The file that is rewritten is there already. -/
theorem accounts_rewriteWal (id : ℕ) (whole : Bytes) (part : ℕ → Bytes) : Accounts (rewriteWal id whole part) := by
  refine accounts_access fun io files history h => ?_
  cases hfind : files.wals.find id with
  | none => exact h
  | some bytes =>
    have hid : Accounted history (.wal id) := h.wals id (by rw [hfind]; rfl)
    cases io with
    | success => exact h.putWal hid
    | refused => exact h
    | torn written => exact h.putWal hid
    | late => exact h.putWal hid

theorem accounts_forM {f : β → StoreProg Unit} (h : ∀ b, Accounts (f b)) (l : List β) : Accounts (l.forM f) := by
  induction l with
  | nil => exact accounts_pure ()
  | cons b l ih => exact (h b).bind fun _ => ih

theorem accounts_reclaim {list : Files → List ℕ} {remove : ℕ → Files → Files}
    (h : ∀ id files history, AllAccounted files history → AllAccounted (remove id files) history) :
    Accounts (reclaim list remove) := by
  refine Accounts.bind (accounts_access fun io files history hnamed => ?_) fun listed => ?_
  · split_ifs
    · exact hnamed
    · exact hnamed
  · refine accounts_forM (fun id => accounts_access fun io files history hnamed => ?_) listed
    cases io with
    | success => exact h id _ _ hnamed
    | refused => exact hnamed
    | torn written => exact hnamed
    | late => exact h id _ _ hnamed

theorem accounts_writeManifestNew (version : VersionSet) : Accounts (writeManifestNew version) :=
  (accounts_ofExcept _).bind fun _ => (accounts_ofExcept _).bind fun _ => accounts_createManifest _ _

theorem accounts_createInitial (walId walFirstSequence : ℕ) : Accounts (createInitial walId walFirstSequence) :=
  (accounts_writeManifestNew _).bind fun _ => (accounts_createCurrent _).bind fun _ => accounts_pure _

theorem accounts_prepareInstall (current : VersionSet) (manifestId : ℕ) (state : ManifestState) :
    Accounts (prepareInstall current manifestId state) := by
  refine (accounts_ofExcept _).bind fun _ => (accounts_ofExcept _).bind fun _ => ?_
  refine (accounts_ofExcept _).bind fun generation => (accounts_ofExcept _).bind fun _ => ?_
  exact (accounts_writeManifestNew _).bind fun _ => accounts_pure _

theorem accounts_install (current : VersionSet) (manifestId : ℕ) (state : ManifestState) :
    Accounts (install current manifestId state) :=
  (accounts_prepareInstall _ _ _).bind fun _ => (accounts_writeCurrentSlot _ _).bind fun _ => accounts_pure _

theorem accounts_mirrorCurrent (current : VersionSet) : Accounts (mirrorCurrent current) :=
  (accounts_ofExcept _).bind fun _ => (accounts_writeCurrentSlot _ _).bind fun _ => accounts_pure _

theorem accounts_createSstable (tableId level durableSequence : ℕ) (entries : VersionMap) :
    Accounts (createSstable tableId level durableSequence entries) := by
  refine (accounts_ofExcept _).bind fun created => ?_
  exact (accounts_createTable _ _).bind fun _ => accounts_reading

theorem accounts_createNewWal (walId firstSequence : ℕ) : Accounts (createNewWal walId firstSequence) :=
  (accounts_ofExcept _).bind fun _ => (accounts_createWal _ _).bind fun _ => accounts_pure _

theorem accounts_openTables (descriptors : List SstableDescriptor) : Accounts (openTables descriptors) := by
  induction descriptors with
  | nil => exact accounts_pure []
  | cons descriptor rest ih =>
    exact accounts_reading.bind fun table => ih.bind fun tables => accounts_pure _

theorem accounts_loadVersion (layout : Layout) : Accounts (loadVersion layout) := by
  unfold loadVersion
  split_ifs
  · exact accounts_reading.bind fun _ => accounts_reading.bind fun _ => accounts_pure _
  · exact accounts_pure _

theorem accounts_openWal (walId firstSequence durableSequence : ℕ) (memtables : MemTableSet) :
    Accounts (openWal walId firstSequence durableSequence memtables) := by
  refine accounts_reading.bind fun file => (accounts_ofExcept _).bind fun scan => ?_
  refine Accounts.bind ?_ fun _ => accounts_pure _
  unfold truncateTail
  split_ifs
  · exact accounts_rewriteWal _ _ _
  · exact accounts_pure ()

theorem accounts_openExisting : Accounts openExisting := by
  refine accounts_reading.bind fun layout => (accounts_loadVersion layout).bind fun loaded => ?_
  refine (accounts_openTables _).bind fun tables => (accounts_ofExcept _).bind fun _ => ?_
  refine (accounts_ofExcept _).bind fun memtables => (accounts_openWal _ _ _ _).bind fun opened => ?_
  refine (accounts_ofExcept _).bind fun _ => (accounts_ofExcept _).bind fun nextTableId => ?_
  refine (accounts_ofExcept _).bind fun nextManifestId => (accounts_ofExcept _).bind fun nextWalId => ?_
  exact accounts_pure _

/-! ### Programs of an engine -/

/-- The same of a program over a session. -/
def SessionAccounts (x : EngineProg α) : Prop :=
  ∀ s : Session, AllAccounted s.store.files s.store.history →
    AllAccounted (x s).2.store.files (x s).2.store.history

theorem SessionAccounts.bind {x : EngineProg α} {f : α → EngineProg β} (hx : SessionAccounts x)
    (hf : ∀ a, SessionAccounts (f a)) : SessionAccounts (x >>= f) := by
  intro s h
  have hafter := hx s h
  cases hrun : x s with
  | mk result t =>
    rw [hrun] at hafter
    cases result with
    | ok a =>
      rw [Prog.bind_ok hrun]
      exact hf a t hafter
    | error e =>
      rw [Prog.bind_error hrun]
      exact hafter

theorem sessionAccounts_pure (a : α) : SessionAccounts (pure a : EngineProg α) := fun _ h => h

theorem sessionAccounts_ofExcept (x : Except DbError α) : SessionAccounts (Prog.ofExcept x) := fun _ h => h

theorem sessionAccounts_reads (f : Session → Except DbError α) : SessionAccounts (Prog.reads f) := fun _ h => h

theorem sessionAccounts_modifyEngine (f : LsmEngine → LsmEngine) : SessionAccounts (modifyEngine f) := fun _ h => h

theorem Accounts.onStore {x : StoreProg α} (hx : Accounts x) : SessionAccounts (onStore x) := fun s h => hx s.store h

theorem SessionAccounts.poisonOnError {x : EngineProg α} (hx : SessionAccounts x) :
    SessionAccounts (poisonOnError x) := by
  intro s h
  have hafter := hx s h
  unfold LsmEngine.poisonOnError
  cases hrun : x s with
  | mk result t =>
    rw [hrun] at hafter
    cases result with
    | ok a => exact hafter
    | error e => exact hafter

theorem sessionAccounts_ensureManifest : SessionAccounts ensureManifest := by
  refine (sessionAccounts_reads _).bind fun e => ?_
  split_ifs
  · refine (sessionAccounts_reads _).bind fun wal => ?_
    exact (accounts_createInitial _ _).onStore.bind fun _ => sessionAccounts_modifyEngine _
  · exact sessionAccounts_pure ()

theorem sessionAccounts_flushOldest (entries : VersionMap) (durableSequence : ℕ) :
    SessionAccounts (flushOldest entries durableSequence) := by
  refine sessionAccounts_ensureManifest.bind fun _ => (sessionAccounts_reads _).bind fun e => ?_
  refine (sessionAccounts_ofExcept _).bind fun _ => (sessionAccounts_ofExcept _).bind fun _ => ?_
  refine (accounts_createSstable _ _ _ _).onStore.bind fun table => ?_
  refine (accounts_install _ _ _).onStore.bind fun next => (sessionAccounts_modifyEngine _).bind fun _ => ?_
  exact (sessionAccounts_ofExcept _).bind fun _ => sessionAccounts_modifyEngine _

theorem sessionAccounts_flushLoop (rounds : ℕ) : SessionAccounts (flushLoop rounds) := by
  induction rounds with
  | zero => exact sessionAccounts_pure ()
  | succ rounds ih =>
    refine (sessionAccounts_reads _).bind fun e => (sessionAccounts_ofExcept _).bind fun snapshot => ?_
    cases snapshot with
    | none => exact sessionAccounts_pure ()
    | some oldest => exact (sessionAccounts_flushOldest _ _).bind fun _ => ih

theorem sessionAccounts_createReplacement (e : LsmEngine) (live : VersionMap) :
    SessionAccounts (createReplacement e live) := by
  unfold createReplacement
  split_ifs
  · exact sessionAccounts_pure _
  · refine (sessionAccounts_ofExcept _).bind fun _ => ?_
    exact (accounts_createSstable _ _ _ _).onStore.bind fun _ => sessionAccounts_pure _

theorem sessionAccounts_reclaimTables (active : Option ℕ) :
    SessionAccounts (onStore (reclaimObsoleteSstables active)) :=
  (accounts_reclaim fun _ _ _ h => h.removeTable).onStore

theorem sessionAccounts_reclaimManifests (active : ℕ) :
    SessionAccounts (onStore (reclaimObsoleteManifests active)) :=
  (accounts_reclaim fun _ _ _ h => h.removeManifest).onStore

theorem sessionAccounts_reclaimWals (active : ℕ) : SessionAccounts (onStore (reclaimObsoleteWals active)) :=
  (accounts_reclaim fun _ _ _ h => h.removeWal).onStore

theorem sessionAccounts_maybeCompactLevel0 : SessionAccounts maybeCompactLevel0 := by
  refine (sessionAccounts_reads _).bind fun e => ?_
  split_ifs
  · exact sessionAccounts_pure ()
  -- the trigger is met: the replacement, its manifest, both slots, and what is obsolete then
  refine (sessionAccounts_reads _).bind fun e => (sessionAccounts_ofExcept _).bind fun _ => ?_
  refine (sessionAccounts_ofExcept _).bind fun _ => (sessionAccounts_ofExcept _).bind fun _ => ?_
  refine (sessionAccounts_createReplacement _ _).bind fun replacement => ?_
  refine (accounts_prepareInstall _ _ _).onStore.bind fun compacted => ?_
  refine (accounts_writeCurrentSlot _ _).onStore.bind fun _ => (accounts_mirrorCurrent _).onStore.bind fun _ => ?_
  refine (sessionAccounts_modifyEngine _).bind fun _ => ?_
  exact (sessionAccounts_reclaimTables _).bind fun _ => sessionAccounts_reclaimManifests _

theorem sessionAccounts_maybeRotateWal : SessionAccounts maybeRotateWal := by
  refine (sessionAccounts_reads _).bind fun e => ?_
  split_ifs
  · exact sessionAccounts_pure ()
  refine (sessionAccounts_reads _).bind fun wal => ?_
  split_ifs
  · exact sessionAccounts_pure ()
  refine (sessionAccounts_reads _).bind fun e => (sessionAccounts_ofExcept _).bind fun _ => ?_
  refine (sessionAccounts_ofExcept _).bind fun _ => (accounts_createNewWal _ _).onStore.bind fun _ => ?_
  refine (accounts_install _ _ _).onStore.bind fun _ => (accounts_mirrorCurrent _).onStore.bind fun _ => ?_
  refine (sessionAccounts_modifyEngine _).bind fun _ => ?_
  exact (sessionAccounts_reclaimWals _).bind fun _ => sessionAccounts_reclaimManifests _

theorem sessionAccounts_appendWal (kind : Record.RecordKind) (key value : Bytes) :
    SessionAccounts (appendWal kind key value) := by
  refine (sessionAccounts_reads _).bind fun wal => (sessionAccounts_ofExcept _).bind fun appended => ?_
  refine (accounts_rewriteWal _ _ _).onStore.bind fun _ => (sessionAccounts_modifyEngine _).bind fun _ => ?_
  exact sessionAccounts_pure _

theorem sessionAccounts_applyMemtables (sequence : ℕ) (key : Bytes) (value : Option Bytes) :
    SessionAccounts (applyMemtables sequence key value) :=
  (sessionAccounts_reads _).bind fun _ => (sessionAccounts_ofExcept _).bind fun _ =>
    sessionAccounts_modifyEngine _

theorem sessionAccounts_flushFrozenMemtables : SessionAccounts flushFrozenMemtables :=
  (sessionAccounts_reads _).bind fun _ => (sessionAccounts_flushLoop _).bind fun _ =>
    sessionAccounts_maybeCompactLevel0.bind fun _ => sessionAccounts_maybeRotateWal

theorem sessionAccounts_persistAndApply (kind : Record.RecordKind) (key : Bytes) (value : Option Bytes) :
    SessionAccounts (persistAndApply kind key value) := by
  refine (sessionAccounts_reads _).bind fun _ => ?_
  refine (sessionAccounts_appendWal _ _ _).poisonOnError.bind fun sequence => ?_
  refine (sessionAccounts_applyMemtables _ _ _).poisonOnError.bind fun _ => ?_
  exact sessionAccounts_flushFrozenMemtables.poisonOnError

theorem SessionAccounts.map {x : EngineProg α} (hx : SessionAccounts x) (f : α → β) : SessionAccounts (f <$> x) := by
  rw [← bind_pure_comp]
  exact hx.bind fun a => sessionAccounts_pure (f a)

theorem sessionAccounts_reopen : SessionAccounts reopen := by
  intro s h
  have hopen := accounts_openExisting s.store h
  unfold reopen
  cases hrun : openExisting s.store with
  | mk result store =>
    rw [hrun] at hopen
    cases result with
    | ok e => exact hopen
    | error err => exact hopen

/-- **No call makes a file that is not accounted for**, whatever its result. -/
theorem sessionAccounts_call (call : Call) : SessionAccounts call.run := by
  cases call with
  | put key value =>
    refine SessionAccounts.map ?_ _
    refine (sessionAccounts_ofExcept _).bind fun _ => (sessionAccounts_reads _).bind fun _ => ?_
    refine (sessionAccounts_reads _).bind fun e => ?_
    exact (sessionAccounts_persistAndApply _ _ _).bind fun _ => sessionAccounts_pure _
  | get key =>
    refine SessionAccounts.map ?_ _
    refine (sessionAccounts_ofExcept _).bind fun _ => (sessionAccounts_reads _).bind fun _ => ?_
    exact (sessionAccounts_reads _).bind fun e => sessionAccounts_pure _
  | delete key =>
    refine SessionAccounts.map ?_ _
    refine (sessionAccounts_ofExcept _).bind fun _ => (sessionAccounts_reads _).bind fun _ => ?_
    refine (sessionAccounts_reads _).bind fun e => ?_
    exact (sessionAccounts_persistAndApply _ _ _).bind fun _ => sessionAccounts_pure _
  | rangeScan start stop limit =>
    refine SessionAccounts.map ?_ _
    refine (sessionAccounts_ofExcept _).bind fun _ => (sessionAccounts_reads _).bind fun _ => ?_
    refine (sessionAccounts_reads _).bind fun e => ?_
    split_ifs
    · exact sessionAccounts_pure _
    · exact sessionAccounts_pure _
  | reopen => exact sessionAccounts_reopen

/-! ### Runs from any directory -/

theorem unknownNames_eq_nil : unknownNames files = [] ↔ files.unknown = [] ∧
    (∀ id, (files.wals.find id).isSome → CanonicalId id) ∧
    (∀ id, (files.manifests.find id).isSome → CanonicalId id) ∧
    ∀ id, (files.tables.find id).isSome → CanonicalId id := by
  simp only [unknownNames, List.append_eq_nil_iff, List.map_eq_nil_iff, List.filter_eq_nil_iff,
    decide_not, Bool.not_eq_true', decide_eq_false_iff_not, not_not, SortedMap.mem_keys, and_assoc]

theorem allAccounted_of_unknownNames (h : unknownNames files = []) : AllAccounted files history := by
  obtain ⟨hunknown, hwals, hmanifests, htables⟩ := unknownNames_eq_nil.1 h
  exact ⟨fun id hid => .inl (hwals id hid), fun id hid => .inl (htables id hid),
    fun id hid => .inl (hmanifests id hid), hunknown⟩

/-- The engine has created canonical names only. -/
def CreatesCanonical (history : History) : Prop :=
  ∀ name present, Event.created name present ∈ history → name.Canonical

theorem AllAccounted.unknownNames (h : AllAccounted files history) (hcreates : CreatesCanonical history) :
    unknownNames files = [] := by
  have hcanonical : ∀ {name : FileName}, Accounted history name → name.Canonical := by
    intro name hname
    rcases hname with hname | hname
    · exact hname
    · exact hcreates name false hname
  exact unknownNames_eq_nil.2 ⟨h.unknown, fun id hid => hcanonical (h.wals id hid),
    fun id hid => hcanonical (h.manifests id hid), fun id hid => hcanonical (h.tables id hid)⟩

/-- The runs from any directory that opens: calls, drops and further openings, under any outcomes of the
accesses. -/
inductive AdmittedRun : Files → History → Option LsmEngine → Prop
  | admitted {files : Files} {io : List Io} {e : LsmEngine} {store : Store} :
      openExisting ⟨files, io, []⟩ = (.ok e, store) → AdmittedRun store.files store.history (some e)
  | opened {files : Files} {history : History} {io : List Io} {result : Except DbError LsmEngine}
      {store : Store} : AdmittedRun files history none → openExisting ⟨files, io, history⟩ = (result, store) →
      AdmittedRun store.files store.history result.toOption
  | call {files : Files} {history : History} {e : LsmEngine} {s : Session} (io : List Io) (call : Call) :
      AdmittedRun files history (some e) → Session.call ⟨⟨files, [], history⟩, e⟩ io call = s →
      AdmittedRun s.store.files s.store.history (some s.engine)
  | dropped {files : Files} {history : History} {e : LsmEngine} : AdmittedRun files history (some e) →
      AdmittedRun files history none

theorem validateLayout_unknownNames {layout : Layout} (h : validateLayout files = .ok layout) :
    unknownNames files = [] := by
  unfold validateLayout at h
  simp only [Checked.bind_eq_ok, failWhen_eq_ok, not_not] at h
  exact h.choose_spec.1

theorem reading_eq_ok {f : Files → Except DbError α} {a : α} {s s' : Store} (h : reading f s = (.ok a, s')) :
    f s.files = .ok a := by
  have hresult := congrArg Prod.fst h
  simp only [reading, access] at hresult
  split_ifs at hresult
  · exact hresult

theorem AdmittedRun.allAccounted {handle : Option LsmEngine} (h : AdmittedRun files history handle) :
    AllAccounted files history := by
  induction h with
  | @admitted files io e store hrun =>
    have hstart : AllAccounted files [] := by
      have hopen := hrun
      rw [openExisting, Prog.bind_eq_ok] at hopen
      obtain ⟨layout, t, hlayout, -⟩ := hopen
      exact allAccounted_of_unknownNames (validateLayout_unknownNames (reading_eq_ok hlayout))
    have hend := accounts_openExisting ⟨files, io, []⟩ hstart
    rwa [hrun] at hend
  | @opened files history io result store _ hrun ih =>
    have hend := accounts_openExisting ⟨files, io, history⟩ ih
    rwa [hrun] at hend
  | @call files history e s io call _ hcall ih =>
    rw [← hcall]
    exact sessionAccounts_call call ⟨⟨files, io, history⟩, e⟩ ih
  | dropped _ ih => exact ih

end DbLab.Lsm
