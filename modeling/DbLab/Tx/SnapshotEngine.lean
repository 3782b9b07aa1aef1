import DbLab.Log.Quiet
import DbLab.Tx.Snapshot

/-!
# Transactions that rewrite a snapshot

A batch is applied to a copy of the map, the copy is written as one value of the append log, and then it
becomes the map. A batch that is refused leaves the map and the file as they were, and a reopen reads the map
back that the last batch has written.
-/

namespace DbLab.Tx.Snapshot

open Log

structure SnapshotTransactionEngine where
  backing : Handle
  values : Committed
  deriving DecidableEq

/-- The key that a mutation is about. -/
def keyOf : Mutation → Bytes
  | .put key _ => key
  | .delete key => key

/-- Source `validate_mutations`. -/
def validateMutations (mutations : List Mutation) : Except DbError Unit :=
  mutations.forM Program.validateMutation

/-- One round of the loop of `commit_batch`, with the candidate and the previous values. -/
def collect (state : Committed × List (Option Bytes)) (mutation : Mutation) : Committed × List (Option Bytes) :=
  (applyMutation state.1 mutation, state.2 ++ [state.1.find (keyOf mutation)])

namespace SnapshotTransactionEngine

/-- What `open` and `reopen` read. -/
def readSnapshot (backing : Handle) : Except DbError Committed := do
  match ← (Handle.get snapshotKey backing).1 with
  | some bytes => decodeSnapshot bytes
  | none => .ok .empty

/-- Source `open`, for a path that is free or has a file. -/
def openFile (path : String) (file : Option Bytes) : Except DbError SnapshotTransactionEngine := do
  let backing ← LogEngine.openFile file
  let values ← readSnapshot ⟨path, true, backing⟩
  .ok ⟨⟨path, true, backing⟩, values⟩

def onBacking {α : Type} (x : Prog Handle DbError α) : Prog SnapshotTransactionEngine DbError α :=
  Prog.zoom backing (fun engine backing => { engine with backing := backing }) x

/-- Source `commit_batch`. -/
def commitBatch (around : Surroundings) (mutations : List Mutation) :
    Prog SnapshotTransactionEngine DbError (List (Option Bytes)) := do
  Prog.ofExcept (failWhen (maxBatchMutations < mutations.length) (.invalidInput
    s!"atomic batch has {mutations.length} mutations; maximum is {maxBatchMutations}"))
  Prog.ofExcept (validateMutations mutations)
  if mutations = [] then pure []
  else do
    let engine ← Prog.get
    let (candidate, previous) := mutations.foldl collect (engine.values, [])
    let encoded ← Prog.ofExcept (encodeSnapshot candidate)
    let _ ← onBacking (Handle.put around snapshotKey encoded)
    Prog.modify fun engine => { engine with values := candidate }
    pure previous

/-- Source `reopen`. -/
def reopen (around : Surroundings) : Prog SnapshotTransactionEngine DbError Unit := do
  onBacking (Handle.reopen around)
  let engine ← Prog.get
  let values ← Prog.ofExcept (readSnapshot engine.backing)
  Prog.modify fun engine => { engine with values := values }

end SnapshotTransactionEngine

/-! ### The model map -/

/-- A map as a function: what one mutation makes of it. -/
def modelMutation (model : Bytes → Option Bytes) : Mutation → Bytes → Option Bytes
  | .put key value => Function.update model key (some value)
  | .delete key => Function.update model key none

/-- The values that the mutations meet, one behind the other. -/
def modelPrevious (model : Bytes → Option Bytes) : List Mutation → List (Option Bytes)
  | [] => []
  | mutation :: mutations => model (keyOf mutation) :: modelPrevious (modelMutation model mutation) mutations

variable {values : Committed} {mutations : List Mutation} {mutation : Mutation}

theorem find_applyMutation : (applyMutation values mutation).find = modelMutation values.find mutation := by
  funext key
  cases mutation with
  | put key' value =>
    rw [applyMutation, modelMutation, SortedMap.find_insert, Function.update_apply]
    congr
  | delete key' =>
    rw [applyMutation, modelMutation, SortedMap.find_erase, Function.update_apply]
    congr

/-- **The candidate is the model map**, and the answers are the values that a sequential application meets. -/
theorem foldl_collect (previous : List (Option Bytes)) :
    mutations.foldl collect (values, previous) =
      (applyMutations values mutations, previous ++ modelPrevious values.find mutations) := by
  induction mutations generalizing values previous with
  | nil => simp [applyMutations, modelPrevious]
  | cons mutation mutations ih =>
    rw [List.foldl_cons, collect, ih, modelPrevious, find_applyMutation, List.append_assoc]
    rfl

theorem find_applyMutations : (applyMutations values mutations).find = mutations.foldl modelMutation values.find := by
  induction mutations generalizing values with
  | nil => rfl
  | cons mutation mutations ih =>
    rw [List.foldl_cons, ← find_applyMutation, ← ih]
    rfl

/-- The entries stay within the limits. -/
theorem valid_applyMutations (h : ∀ entry ∈ values.entries, ValidEntry entry)
    (hvalid : ∀ mutation ∈ mutations, Program.Valid mutation) :
    ∀ entry ∈ (applyMutations values mutations).entries, ValidEntry entry := by
  induction mutations generalizing values with
  | nil => exact h
  | cons mutation mutations ih =>
    obtain ⟨hfirst, hrest⟩ := List.forall_mem_cons.1 hvalid
    refine ih (fun entry hentry => ?_) hrest
    cases mutation with
    | put key value =>
      rcases mem_of_mem_upsertBy hentry with rfl | hold
      · exact hfirst
      · exact h entry hold
    | delete key => exact h entry (mem_removeBy.1 hentry).1

theorem validateMutations_eq_ok :
    validateMutations mutations = .ok () ↔ ∀ mutation ∈ mutations, Program.Valid mutation := by
  rw [validateMutations, Checked.forM_eq_ok]
  simp only [Program.validateMutation_eq_ok]

namespace SnapshotTransactionEngine

open Handle

variable {engine engine' : SnapshotTransactionEngine} {around : Surroundings} {path : String} {file : Option Bytes}

/-- The log holds its file, and its snapshot is the map. -/
structure Holding (engine : SnapshotTransactionEngine) : Prop where
  held : engine.backing.held = true
  holds : ∃ ms, engine.backing.engine.Holds ms
  snapshot : readSnapshot engine.backing = .ok engine.values
  valid : ∀ entry ∈ engine.values.entries, ValidEntry entry

theorem readSnapshot_eq {backing : Handle} (hheld : backing.held = true) (husable : backing.engine.poisoned = false) :
    readSnapshot backing = match lookupBy Prod.fst snapshotKey backing.engine.values with
      | some (_, bytes) => decodeSnapshot bytes
      | none => .ok .empty := by
  have hkey : validateKey snapshotKey = .ok () := validateKey_eq_ok.2 (by decide)
  have hready : Handle.ensureUsable backing = (.ok (), backing) := by
    simp [Handle.ensureUsable, Prog.reads, hheld, husable]
  have hget : (Handle.get snapshotKey backing).1 =
      .ok ((lookupBy Prod.fst snapshotKey backing.engine.values).map Prod.snd) := by
    rw [Handle.get, hkey, Prog.ofExcept_ok_bind, Prog.bind_ok hready]
    rfl
  rw [readSnapshot, hget, Checked.ok_bind]
  cases lookupBy Prod.fst snapshotKey backing.engine.values with
  | none => rfl
  | some entry => rfl

theorem valid_of_readSnapshot {backing : Handle} {values : Committed} (hheld : backing.held = true)
    (husable : backing.engine.poisoned = false) (h : readSnapshot backing = .ok values) :
    ∀ entry ∈ values.entries, ValidEntry entry := by
  rw [readSnapshot_eq hheld husable] at h
  split at h
  · exact (decodeSnapshot_eq_ok.1 h).1
  · cases h
    exact fun _ hentry => absurd hentry List.not_mem_nil

/-- **An open** that succeeds. -/
theorem holding_of_openFile (h : openFile path file = .ok engine) : engine.Holding := by
  unfold openFile at h
  simp only [Checked.bind_eq_ok, Except.ok.injEq] at h
  obtain ⟨backing, hbacking, values, hread, rfl⟩ := h
  obtain ⟨ms, hholds⟩ := LogEngine.holds_of_openFile hbacking
  exact ⟨rfl, ⟨ms, hholds⟩, hread, valid_of_readSnapshot rfl hholds.usable hread⟩

/-- **A reopen** without faults reads the map back; the file stays as it is. -/
theorem Holding.reopen (h : engine.Holding) (hquiet : Quiet around) (helsewhere : around.elsewhere = none) :
    ∃ engine', reopen around engine = (.ok (), engine') ∧ engine'.Holding ∧ engine'.values = engine.values ∧
      engine'.backing.engine.log.file = engine.backing.engine.log.file := by
  obtain ⟨⟨path, held, log⟩, values⟩ := engine
  obtain ⟨hheld, ⟨ms, hholds⟩, hread, hvalid⟩ := h
  obtain rfl : held = true := hheld
  have husable : log.poisoned = false := hholds.usable
  have hreopen := reopen_of_quiet hquiet helsewhere path hholds
  have hread' : readSnapshot ⟨path, true, { log with recoveredTail := none }⟩ = .ok values :=
    (readSnapshot_eq rfl husable).trans ((@readSnapshot_eq ⟨path, true, log⟩ rfl husable).symm.trans hread)
  refine ⟨⟨⟨path, true, { log with recoveredTail := none }⟩, values⟩, ?_,
    ⟨rfl, ⟨ms, hholds.appended, hholds.values, hholds.usable⟩, hread', hvalid⟩, rfl, rfl⟩
  have hback : onBacking (Handle.reopen around) ⟨⟨path, true, log⟩, values⟩ =
      (.ok (), ⟨⟨path, true, { log with recoveredTail := none }⟩, values⟩) := by
    rw [onBacking, Prog.zoom, hreopen]
  rw [SnapshotTransactionEngine.reopen, Prog.bind_ok hback, Prog.get_bind, hread', Prog.ofExcept_ok_bind]
  rfl

/-- Why a batch is refused. -/
inductive Refused (around : Surroundings) (engine : SnapshotTransactionEngine) (mutations : List Mutation) : Prop
  | tooMany (h : maxBatchMutations < mutations.length)
  | invalid (mutation : Mutation) (hmem : mutation ∈ mutations) (h : ¬ Program.Valid mutation)
  | tooLarge (hne : mutations ≠ [])
      (h : maxValueBytes < (snapshotBytes (applyMutations engine.values mutations).entries).length)
  /-- The sequence numbers or the lengths of the log are exhausted. -/
  | exhausted (bytes : Bytes) (e : DbError) (hne : mutations ≠ [])
      (hencode : encodeSnapshot (applyMutations engine.values mutations) = .ok bytes)
      (h : (Handle.put around snapshotKey bytes engine.backing).1 = .error e)

/-- **A commit** without faults: the whole batch is applied and its previous values are returned, or it is refused
without a trace. -/
theorem Holding.commitBatch (h : engine.Holding) (hquiet : Quiet around) (mutations : List Mutation) :
    (∃ engine', commitBatch around mutations engine =
        (.ok (modelPrevious engine.values.find mutations), engine') ∧ engine'.Holding ∧
      engine'.values = applyMutations engine.values mutations ∧ ¬ Refused around engine mutations) ∨
    ∃ e, commitBatch around mutations engine = (.error e, engine) ∧ Refused around engine mutations := by
  obtain ⟨⟨path, held, log⟩, values⟩ := engine
  obtain ⟨hheld, ⟨ms, hholds⟩, hread, hentries⟩ := h
  obtain rfl : held = true := hheld
  replace hholds : log.Holds ms := hholds
  unfold SnapshotTransactionEngine.commitBatch
  -- The checks of the batch come first, and none of them has touched the backing log.
  cases hmany : failWhen (maxBatchMutations < mutations.length) _ with
  | error e =>
    refine .inr ⟨e, rfl, .tooMany (by_contra fun h => ?_)⟩
    rw [(failWhen_eq_ok (u := ())).2 h] at hmany
    cases hmany
  | ok _ =>
  rw [failWhen_eq_ok] at hmany
  rw [Prog.ofExcept_ok_bind]
  cases hvalid : validateMutations mutations with
  | error e =>
    refine .inr ⟨e, rfl, ?_⟩
    by_contra hnot
    rw [validateMutations_eq_ok.2 fun mutation hmem => by_contra fun h => hnot (.invalid mutation hmem h)] at hvalid
    cases hvalid
  | ok _ =>
  rw [validateMutations_eq_ok] at hvalid
  rw [Prog.ofExcept_ok_bind]
  -- An empty batch succeeds without a write.
  by_cases hnil : mutations = []
  · subst hnil
    refine .inl ⟨_, rfl, ⟨rfl, ⟨ms, hholds⟩, hread, hentries⟩, rfl, ?_⟩
    rintro (h | ⟨_, hmem, -⟩ | ⟨hne, -⟩ | ⟨_, _, hne, -⟩)
    · exact hmany h
    · cases hmem
    · exact hne rfl
    · exact hne rfl
  rw [if_neg hnil, Prog.get_bind, foldl_collect, List.nil_append]
  dsimp only
  have hcandidate := valid_applyMutations hentries hvalid
  cases hencode : encodeSnapshot (applyMutations values mutations) with
  | error e =>
    refine .inr ⟨e, rfl, .tooLarge hnil (lt_of_not_ge fun hle => ?_)⟩
    rw [encodeSnapshot_eq_ok.2 ⟨hcandidate, rfl, hle⟩] at hencode
    cases hencode
  | ok encoded =>
  obtain ⟨-, hbytes, hlimit⟩ := encodeSnapshot_eq_ok.1 hencode
  rw [Prog.ofExcept_ok_bind]
  have hput := put_of_quiet hquiet path log snapshotKey encoded
  -- The one append of the snapshot decides the rest.
  rcases hholds.perform (.put snapshotKey encoded) with ⟨previous, log', hrun, hholds'⟩ | ⟨e, hrun⟩
  · replace hrun : LogEngine.put snapshotKey encoded log = (.ok previous, log') := hrun
    rw [hrun] at hput
    have hback : onBacking (Handle.put around snapshotKey encoded) ⟨⟨path, true, log⟩, values⟩ =
        (.ok previous, ⟨⟨path, true, log'⟩, values⟩) := by
      rw [onBacking, Prog.zoom, hput]
    rw [Prog.bind_ok hback]
    refine .inl ⟨⟨⟨path, true, log'⟩, applyMutations values mutations⟩, rfl, ⟨rfl, ⟨_, hholds'⟩, ?_, hcandidate⟩, rfl, ?_⟩
    · have hlook : lookupBy Prod.fst snapshotKey log'.values = some (snapshotKey, encoded) := by
        rw [hholds'.values, LogEngine.replayAll_append]
        show lookupBy Prod.fst snapshotKey (upsertBy Prod.fst (snapshotKey, encoded) (replayAll ms)) = _
        rw [lookupBy_upsertBy (sortedBy_replayAll ms), if_pos rfl]
      rw [readSnapshot_eq rfl hholds'.usable, hlook]
      exact decodeSnapshot_encode hencode
    · rintro (h | ⟨mutation, hmem, h⟩ | ⟨-, h⟩ | ⟨bytes, e, -, hencode', h⟩)
      · exact hmany h
      · exact h (hvalid mutation hmem)
      · exact absurd (hbytes ▸ hlimit) (not_le.2 h)
      · rw [hencode, Except.ok.injEq] at hencode'
        subst hencode'
        rw [hput] at h
        cases h
  · replace hrun : LogEngine.put snapshotKey encoded log = (.error e, log) := hrun
    rw [hrun] at hput
    have hback : onBacking (Handle.put around snapshotKey encoded) ⟨⟨path, true, log⟩, values⟩ =
        (.error e, ⟨⟨path, true, log⟩, values⟩) := by
      rw [onBacking, Prog.zoom, hput]
    rw [Prog.bind_error hback]
    exact .inr ⟨e, rfl, .exhausted encoded e hnil hencode (by rw [hput])⟩

/-! ### Runs -/

/-- The runs of an engine without faults, with the batches that were accepted. -/
inductive Run (start : SnapshotTransactionEngine) : List (List Mutation) → SnapshotTransactionEngine → Prop
  | start : Run start [] start
  | accepted {batches : List (List Mutation)} {engine engine' : SnapshotTransactionEngine}
      {mutations : List Mutation} {previous : List (Option Bytes)} (around : Surroundings) (hquiet : Quiet around)
      (hrun : Run start batches engine) (hcommit : commitBatch around mutations engine = (.ok previous, engine')) :
      Run start (batches ++ [mutations]) engine'
  | rejected {batches : List (List Mutation)} {engine engine' : SnapshotTransactionEngine}
      {mutations : List Mutation} {e : DbError} (around : Surroundings) (hquiet : Quiet around)
      (hrun : Run start batches engine) (hcommit : commitBatch around mutations engine = (.error e, engine')) :
      Run start batches engine'
  | reopened {batches : List (List Mutation)} {engine engine' : SnapshotTransactionEngine}
      {result : Except DbError Unit} (around : Surroundings) (hquiet : Quiet around)
      (helsewhere : around.elsewhere = none) (hrun : Run start batches engine)
      (hreopen : SnapshotTransactionEngine.reopen around engine = (result, engine')) : Run start batches engine'

/-- The model map behind batches that are applied as a whole, in order. -/
def modelBatches (model : Bytes → Option Bytes) (batches : List (List Mutation)) : Bytes → Option Bytes :=
  batches.foldl (fun model mutations => mutations.foldl modelMutation model) model

variable {start : SnapshotTransactionEngine} {batches : List (List Mutation)}

theorem Run.holding (hstart : start.Holding) (h : Run start batches engine) :
    engine.Holding ∧ engine.values.find = modelBatches start.values.find batches := by
  induction h with
  | start => exact ⟨hstart, rfl⟩
  | @accepted batches engine engine' mutations previous around hquiet _ hcommit ih =>
    rcases ih.1.commitBatch hquiet mutations with ⟨next, hrun, hholding, hvalues, -⟩ | ⟨e, hrun, -⟩
    · rw [hrun, Prod.mk.injEq] at hcommit
      obtain ⟨-, rfl⟩ := hcommit
      refine ⟨hholding, ?_⟩
      rw [hvalues, find_applyMutations, ih.2, modelBatches, modelBatches, List.foldl_append]
      rfl
    · rw [hrun] at hcommit
      cases hcommit
  | @rejected batches engine engine' mutations e around hquiet _ hcommit ih =>
    rcases ih.1.commitBatch hquiet mutations with ⟨next, hrun, -⟩ | ⟨e', hrun, -⟩
    · rw [hrun] at hcommit
      cases hcommit
    · rw [hrun, Prod.mk.injEq] at hcommit
      obtain ⟨-, rfl⟩ := hcommit
      exact ih
  | @reopened batches engine engine' result around hquiet helsewhere _ hreopen ih =>
    obtain ⟨next, hrun, hholding, hvalues, -⟩ := ih.1.reopen hquiet helsewhere
    rw [hrun, Prod.mk.injEq] at hreopen
    obtain ⟨-, rfl⟩ := hreopen
    exact ⟨hholding, by rw [hvalues, ih.2]⟩

/-- **Snapshot transactions.** In every run the map is the model map with the accepted batches applied; the next
batch is applied as a whole and answered with the values that a sequential application meets, or it is refused, for
one of the reasons, and then engine and file are as before; a reopen succeeds and has the same map and file. The
decoder inverts the encoder, and accepts within the limit of a value nothing but encodings. -/
theorem snapshot_transactions :
    (∀ {path file start batches engine}, openFile path file = .ok start → Run start batches engine →
      engine.values.find = modelBatches start.values.find batches ∧
      (∀ around mutations, Quiet around →
        (∃ engine', commitBatch around mutations engine =
            (.ok (modelPrevious engine.values.find mutations), engine') ∧
          engine'.values.find = mutations.foldl modelMutation engine.values.find ∧
          ¬ Refused around engine mutations) ∨
        ∃ e, commitBatch around mutations engine = (.error e, engine) ∧ Refused around engine mutations) ∧
      ∀ around, Quiet around → around.elsewhere = none →
        ∃ engine', reopen around engine = (.ok (), engine') ∧ engine'.values = engine.values ∧
          engine'.backing.engine.log.file = engine.backing.engine.log.file) ∧
    (∀ values bytes, encodeSnapshot values = .ok bytes → decodeSnapshot bytes = .ok values) ∧
    ∀ bytes values, bytes.length ≤ maxValueBytes → decodeSnapshot bytes = .ok values →
      encodeSnapshot values = .ok bytes := by
  refine ⟨fun hopen hrun => ?_, fun _ _ => decodeSnapshot_encode, fun _ _ => encodeSnapshot_decode⟩
  obtain ⟨hholding, hmodel⟩ := hrun.holding (holding_of_openFile hopen)
  refine ⟨hmodel, fun around mutations hquiet => ?_, fun around hquiet helsewhere => ?_⟩
  · rcases hholding.commitBatch hquiet mutations with ⟨engine', hcommit, -, hvalues, hnot⟩ | hrefused
    · exact .inl ⟨engine', hcommit, by rw [hvalues, find_applyMutations], hnot⟩
    · exact .inr hrefused
  · obtain ⟨engine', hreopen, -, hvalues, hfile⟩ := hholding.reopen hquiet helsewhere
    exact ⟨engine', hreopen, hvalues, hfile⟩

/-- The engine of a new file. -/
def fresh : SnapshotTransactionEngine :=
  ⟨⟨"tx.log", true, ⟨⟨encodeFileHeader, 1, 0, 16, encodeFileHeader⟩, [], none, false⟩⟩, .empty⟩

/-- A batch that deletes a key and puts it again meets its own mutations. -/
theorem snapshot_transactions_repeated : ∃ engine', commitBatch quiet [.put [1] [2], .delete [1], .put [1] [3]] fresh =
    (.ok [none, some [2], none], engine') ∧ engine'.values.find [1] = some [3] := by
  have hopen : openFile "tx.log" none = .ok fresh := by decide +kernel
  have haccepted : (commitBatch quiet [.put [1] [2], .delete [1], .put [1] [3]] fresh).1 =
      .ok [none, some [2], none] := by decide +kernel
  have hbatch := (snapshot_transactions.1 hopen .start).2.1 quiet [.put [1] [2], .delete [1], .put [1] [3]]
    fun _ => rfl
  rcases hbatch with ⟨engine', hcommit, hvalues, -⟩ | ⟨e, hcommit, -⟩
  · rw [hcommit] at haccepted
    refine ⟨engine', hcommit.trans (Prod.ext haccepted rfl), ?_⟩
    rw [hvalues]
    rfl
  · rw [hcommit] at haccepted
    cases haccepted

end SnapshotTransactionEngine
end DbLab.Tx.Snapshot
