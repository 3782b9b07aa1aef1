import Mathlib.Tactic
import DbLab.Lib.Bytes

/-!
# The writer lease

One lock pathname beside the generation directory. A writer creates it with create-new and then
writes its owner record into the open file; the drop of the lease removes the pathname when it still
holds the record. A stale clear reads the pathname twice and then removes it. Every one of these
steps is atomic, and the steps of any number of agents interleave. A file has an identity, since a
writer keeps writing to the file that it created when the pathname has been removed meanwhile.

A clear starts with the confirmation that no coordinated writer is alive. This alone does not exclude
two leases, because a clear may remove the pathname long after its start; it does when the
confirmation still holds at the removal.
-/

namespace DbLab.Generation

def maxGenerationWriterLockBytes : ℕ := 4096

/-- What is at the lock pathname. -/
inductive LockEntry
  | regular (file : ℕ) (bytes : Bytes)
  /-- A symbolic link or something else that is no regular file. -/
  | other
  deriving DecidableEq

/-- Source `read_lock_record_if_present`; `none` stands for its errors. -/
def readLockRecordIfPresent : Option LockEntry → Option (Option Bytes)
  | none => some none
  | some .other => none
  | some (.regular _ bytes) =>
    if maxGenerationWriterLockBytes < bytes.length then none else some (some bytes)

/-- Where an agent is in `acquire_generation_writer_lease`, in the drop of its lease or in
`clear_stale_generation_writer_lock`. -/
inductive Agent
  | idle
  /-- The file is created, and the record is not yet written. -/
  | created (file : ℕ) (record : Bytes)
  /-- The write failed, and the pathname is not yet removed. -/
  | failed
  | live (record : Bytes)
  /-- The drop found the own record. -/
  | dropping (record : Bytes)
  | clearing (expected : Bytes)
  /-- The first read of the clear found the expected record. -/
  | matched (expected : Bytes)
  /-- So did the second. -/
  | rematched (expected : Bytes)
  deriving DecidableEq

namespace Agent

/-- A coordinated writer, from the creation of the lock file to its removal. -/
def IsWriter : Agent → Prop
  | created _ _ | failed | live _ | dropping _ => True
  | _ => False

/-- The agent holds a lease. -/
def Leases (agent : Agent) (record : Bytes) : Prop := agent = live record ∨ agent = dropping record

theorem Leases.isWriter {agent : Agent} {record : Bytes} (h : agent.Leases record) :
    agent.IsWriter := by
  rcases h with rfl | rfl
  · trivial
  · trivial

end Agent

/-- The steps of the three operations, and the end of a process at any place. -/
inductive LockAction
  | createNew (record : Bytes)
  | writeRecord
  /-- The write fails behind some of its bytes. -/
  | writeFails (written : ℕ)
  | removeFailed
  | readForDrop
  | removeForDrop
  | startClear (expected : Bytes)
  | readForClear
  | readAgainForClear
  | removeForClear
  /-- The process dies; a record that was being written may be written in part. -/
  | crash (written : ℕ)
  deriving DecidableEq

/-- The lock pathname and the agents. -/
structure LockState where
  lock : Option LockEntry
  nextFile : ℕ
  agents : ℕ → Agent

namespace LockState

variable {s s' : LockState} {i j : ℕ} {a : LockAction}

def setAgent (s : LockState) (i : ℕ) (agent : Agent) : LockState :=
  { s with agents := Function.update s.agents i agent }

/-- Write into an open file, which may no longer be the one at the pathname. -/
def writeFile (s : LockState) (file : ℕ) (bytes : Bytes) : LockState :=
  match s.lock with
  | some (.regular current _) =>
    if current = file then { s with lock := some (.regular file bytes) } else s
  | _ => s

def remove (s : LockState) : LockState := { s with lock := none }

/-- Go on when the pathname holds the expected record, else end the operation. -/
def compare (s : LockState) (i : ℕ) (expected : Bytes) (agent : Agent) : LockState :=
  if readLockRecordIfPresent s.lock = some (some expected) then s.setAgent i agent
  else s.setAgent i .idle

/-- One step of the agent `i`. -/
def step (s : LockState) (i : ℕ) (a : LockAction) : Option LockState :=
  match a, s.agents i with
  | .createNew record, .idle =>
    match s.lock with
    | none =>
      some <| LockState.setAgent
        { s with lock := some (.regular s.nextFile []), nextFile := s.nextFile + 1 }
        i (.created s.nextFile record)
    | some _ => some s
  | .writeRecord, .created file record => some ((s.writeFile file record).setAgent i (.live record))
  | .writeFails written, .created file record =>
    some ((s.writeFile file (record.take written)).setAgent i .failed)
  | .removeFailed, .failed => some (s.remove.setAgent i .idle)
  | .readForDrop, .live record => some (s.compare i record (.dropping record))
  | .removeForDrop, .dropping _ => some (s.remove.setAgent i .idle)
  | .startClear expected, .idle =>
    if maxGenerationWriterLockBytes < expected.length then some s
    else some (s.setAgent i (.clearing expected))
  | .readForClear, .clearing expected => some (s.compare i expected (.matched expected))
  | .readAgainForClear, .matched expected => some (s.compare i expected (.rematched expected))
  | .removeForClear, .rematched _ => some (s.remove.setAgent i .idle)
  | .crash written, .created file record =>
    some ((s.writeFile file (record.take written)).setAgent i .idle)
  | .crash _, _ => some (s.setAgent i .idle)
  | _, _ => none

/-- No coordinated writer is alive. -/
def NoWriter (s : LockState) : Prop := ∀ i, ¬ (s.agents i).IsWriter

/-- A clear starts with a true confirmation. -/
def Confirmed (s : LockState) (a : LockAction) : Prop :=
  ∀ expected, a = .startClear expected → s.NoWriter

/-- A clear starts with a true confirmation, and the confirmation still holds when it removes the
pathname. -/
def Attended (s : LockState) (a : LockAction) : Prop :=
  s.Confirmed a ∧ (a = .removeForClear → s.NoWriter)

/-- The states of the runs whose steps all obey a rule, from any content of the lock pathname. -/
inductive Reachable (rule : LockState → LockAction → Prop) : LockState → Prop
  | start {s : LockState} : (∀ i, s.agents i = .idle) → Reachable rule s
  | step {s s' : LockState} (i : ℕ) (a : LockAction) : Reachable rule s → rule s a →
      s.step i a = some s' → Reachable rule s'

/-- There is one writer at most, and the pathname is its file with what it wrote. -/
structure Exclusive (s : LockState) : Prop where
  unique : ∀ i j, (s.agents i).IsWriter → (s.agents j).IsWriter → i = j
  present : ∀ i, (s.agents i).IsWriter → s.lock ≠ none
  created : ∀ i file record, s.agents i = .created file record → s.lock = some (.regular file [])
  leases : ∀ i record, (s.agents i).Leases record → ∃ file, s.lock = some (.regular file record)

/-- The other agents are no writers, and the agent `i` agrees with the pathname. -/
theorem exclusive_setAgent {agent : Agent} (halone : ∀ j, j ≠ i → ¬ (s.agents j).IsWriter)
    (hpresent : agent.IsWriter → s.lock ≠ none)
    (hcreated : ∀ file record, agent = .created file record → s.lock = some (.regular file []))
    (hleases : ∀ record, agent.Leases record → ∃ file, s.lock = some (.regular file record)) :
    (s.setAgent i agent).Exclusive := by
  have hself : (s.setAgent i agent).agents i = agent := Function.update_self ..
  have hother : ∀ j, j ≠ i → (s.setAgent i agent).agents j = s.agents j := fun j hj =>
    Function.update_of_ne hj ..
  have honly : ∀ j, ((s.setAgent i agent).agents j).IsWriter → j = i := by
    intro j hj
    by_contra hne
    rw [hother j hne] at hj
    exact halone j hne hj
  refine ⟨fun j k hj hk => (honly j hj).trans (honly k hk).symm, fun j hj => ?_,
    fun j file record hj => ?_, fun j record hj => ?_⟩
  · obtain rfl := honly j hj
    rw [hself] at hj
    exact hpresent hj
  · obtain rfl := honly j (by rw [hj]; trivial)
    exact hcreated file record (hself.symm.trans hj)
  · obtain rfl := honly j hj.isWriter
    rw [hself] at hj
    exact hleases record hj

/-- An agent that is no writer any more. -/
theorem Exclusive.setAgent {agent : Agent} (h : s.Exclusive) (hagent : ¬ agent.IsWriter) :
    (s.setAgent i agent).Exclusive := by
  have hold : ∀ j, ((s.setAgent i agent).agents j).IsWriter →
      (s.setAgent i agent).agents j = s.agents j := by
    intro j hj
    refine Function.update_of_ne ?_ ..
    rintro rfl
    have hself : (s.setAgent j agent).agents j = agent := Function.update_self ..
    exact hagent (hself ▸ hj)
  refine ⟨fun j k hj hk => h.unique j k (hold j hj ▸ hj) (hold k hk ▸ hk),
    fun j hj => h.present j (hold j hj ▸ hj), fun j file record hj => ?_, fun j record hj => ?_⟩
  · have hw : ((s.setAgent i agent).agents j).IsWriter := by rw [hj]; trivial
    exact h.created j file record ((hold j hw).symm.trans hj)
  · exact h.leases j record (hold j hj.isWriter ▸ hj)

theorem Exclusive.compare {expected : Bytes} {agent : Agent} (h : s.Exclusive)
    (hagent : agent.IsWriter → (s.agents i).IsWriter)
    (hcreated : ∀ file record, agent ≠ .created file record)
    (hleases : ∀ record, agent.Leases record → (s.agents i).Leases record) :
    (s.compare i expected agent).Exclusive := by
  unfold LockState.compare
  split_ifs
  · by_cases hw : agent.IsWriter
    · have hi := hagent hw
      exact exclusive_setAgent (fun j hj hjw => hj (h.unique j i hjw hi)) (fun _ => h.present i hi)
        (fun file record he => absurd he (hcreated file record))
        fun record hr => h.leases i record (hleases record hr)
    · exact h.setAgent hw
  · exact h.setAgent (by rintro ⟨⟩)

/-- Writing into the file that a writer has created. -/
theorem writeFile_created (h : s.Exclusive) {file : ℕ} {record bytes : Bytes}
    (hi : s.agents i = .created file record) :
    (s.writeFile file bytes).lock = some (.regular file bytes) ∧
      (s.writeFile file bytes).agents = s.agents := by
  have hlock := h.created i file record hi
  unfold writeFile
  rw [hlock]
  simp

/-- **One step** keeps the exclusion, when a clear removes the pathname only while no writer is
alive. -/
theorem Exclusive.step (h : s.Exclusive) (hrule : s.Attended a) (hstep : s.step i a = some s') :
    s'.Exclusive := by
  -- the writer `i` is alone
  have halone : (s.agents i).IsWriter → ∀ j, j ≠ i → ¬ (s.agents j).IsWriter :=
    fun hi j hj hjw => hj (h.unique j i hjw hi)
  have hwriting : ∀ {file record} (bytes : Bytes) (agent : Agent),
      s.agents i = .created file record → (∀ file record, agent ≠ .created file record) →
      (∀ r, agent.Leases r → r = bytes) → ((s.writeFile file bytes).setAgent i agent).Exclusive := by
    intro file record bytes agent hi hcreated hleases
    obtain ⟨hlock, hagents⟩ : (s.writeFile file bytes).lock = some (.regular file bytes) ∧
        (s.writeFile file bytes).agents = s.agents := writeFile_created h hi
    refine exclusive_setAgent ?_ (fun _ => by rw [hlock]; simp)
      (fun file record he => absurd he (hcreated file record)) fun r hr => ?_
    · rw [hagents]
      exact halone (by rw [hi]; trivial)
    · rw [hleases r hr]
      exact ⟨file, hlock⟩
  have hremoving : (∀ j, j ≠ i → ¬ (s.agents j).IsWriter) → (s.remove.setAgent i .idle).Exclusive :=
    fun hno => exclusive_setAgent hno (by rintro ⟨⟩) (by rintro _ _ ⟨⟩) (by rintro _ (⟨⟨⟩⟩ | ⟨⟨⟩⟩))
  unfold LockState.step at hstep
  split at hstep
  · -- create-new
    next record hi =>
    split at hstep
    · next hnone =>
      cases hstep
      have hno : ∀ j, ¬ (s.agents j).IsWriter := fun j hj => h.present j hj hnone
      refine exclusive_setAgent (fun j _ => hno j) (fun _ => by simp) ?_ ?_
      · rintro _ _ ⟨⟩
        rfl
      · rintro _ (⟨⟨⟩⟩ | ⟨⟨⟩⟩)
    · cases hstep
      exact h
  · next file record hi =>
    cases hstep
    exact hwriting record _ hi (by simp) (by rintro r (⟨⟨⟩⟩ | ⟨⟨⟩⟩); rfl)
  · next written file record hi =>
    cases hstep
    exact hwriting _ _ hi (by simp) (by rintro r (⟨⟨⟩⟩ | ⟨⟨⟩⟩))
  · next hi =>
    cases hstep
    exact hremoving (halone (by rw [hi]; trivial))
  · next record hi =>
    cases hstep
    refine h.compare (fun _ => by rw [hi]; trivial) (by simp) ?_
    rintro r (⟨⟨⟩⟩ | ⟨⟨⟩⟩)
    exact .inl hi
  · next record hi =>
    cases hstep
    exact hremoving (halone (by rw [hi]; trivial))
  · next expected hi =>
    split_ifs at hstep
    · cases hstep
      exact h
    · cases hstep
      exact h.setAgent (by rintro ⟨⟩)
  · next expected hi =>
    cases hstep
    exact h.compare (by rintro ⟨⟩) (by simp) (by rintro r (⟨⟨⟩⟩ | ⟨⟨⟩⟩))
  · next expected hi =>
    cases hstep
    exact h.compare (by rintro ⟨⟩) (by simp) (by rintro r (⟨⟨⟩⟩ | ⟨⟨⟩⟩))
  · cases hstep
    exact hremoving fun j _ => hrule.2 rfl j
  · next written file record hi =>
    cases hstep
    exact hwriting _ _ hi (by simp) (by rintro r (⟨⟨⟩⟩ | ⟨⟨⟩⟩))
  · cases hstep
    exact h.setAgent (by rintro ⟨⟩)
  · cases hstep

theorem Reachable.exclusive (h : Reachable Attended s) : s.Exclusive := by
  induction h with
  | start hidle =>
    refine ⟨fun i _ hi => ?_, fun i hi => ?_, fun i _ _ hi => ?_, fun i _ hi => ?_⟩
    · rw [hidle] at hi; exact hi.elim
    · rw [hidle] at hi; exact hi.elim
    · rw [hidle] at hi; cases hi
    · have := hi.isWriter
      rw [hidle] at this
      exact this.elim
  | step i a _ hrule hstep ih => exact ih.step hrule hstep

/-- The lock pathname with no agent at work. -/
def quiet (lock : Option LockEntry) : LockState := ⟨lock, 1, fun _ => .idle⟩

/-- Take the steps of a list one after another. -/
def runSteps (s : LockState) : List (ℕ × LockAction) → Option LockState
  | [] => some s
  | (i, a) :: steps => (s.step i a).bind fun s' => s'.runSteps steps

/-- Steps that start no clear need no confirmation. -/
theorem Reachable.runSteps {steps : List (ℕ × LockAction)} (h : Reachable Confirmed s)
    (hsteps : ∀ p ∈ steps, ∀ expected, p.2 ≠ .startClear expected)
    (hrun : s.runSteps steps = some s') : Reachable Confirmed s' := by
  induction steps generalizing s with
  | nil =>
    cases hrun
    exact h
  | cons p steps ih =>
    obtain ⟨s₁, hstep, hrest⟩ := Option.bind_eq_some_iff.1 hrun
    obtain ⟨hp, hsteps⟩ := List.forall_mem_cons.1 hsteps
    exact ih (h.step p.1 p.2 (fun expected he => absurd he (hp expected)) hstep) hsteps hrest

end LockState
end DbLab.Generation
