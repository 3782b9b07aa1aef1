import DbLab.Tx.Incremental

/-!
# Threads that share a transaction log

`SerializedTransactionEngine` has its engine behind a lock that a call takes first and gives back when it
returns. Whatever the order in which any number of threads get the lock, the engine has the history of one
thread that makes the calls in this order.
-/

namespace DbLab.Tx

open Log IncrementalTransactionEngine

/-- The engine behind its lock, and the threads that call it. -/
structure SerializedTransactionEngine where
  inner : IncrementalTransactionEngine
  /-- The thread that has the lock. -/
  holder : Option ℕ
  /-- The batches that a thread will still commit. -/
  calls : ℕ → List (List Mutation)
  /-- The batches that a thread has committed, with the answers. -/
  answers : ℕ → List (List Mutation × Except DbError ℕ)

namespace SerializedTransactionEngine

/-- The steps of `commit_batch`: a thread takes the free lock; the thread that has it runs the call of the engine,
and returns. -/
inductive Step : SerializedTransactionEngine → SerializedTransactionEngine → Prop
  | lock {s : SerializedTransactionEngine} (thread : ℕ) (hfree : s.holder = none) (hcalls : s.calls thread ≠ []) :
      Step s { s with holder := some thread }
  | commitBatch {s : SerializedTransactionEngine} {thread : ℕ} {mutations : List Mutation}
      {rest : List (List Mutation)} {answer : Except DbError ℕ} {inner : IncrementalTransactionEngine}
      (hholder : s.holder = some thread) (hcalls : s.calls thread = mutations :: rest)
      (hcommit : commitBatch .serialized mutations s.inner = (answer, inner)) :
      Step s
        { inner := inner
          holder := none
          calls := Function.update s.calls thread rest
          answers := Function.update s.answers thread (s.answers thread ++ [(mutations, answer)]) }

/-- The ids and batches of the calls that succeeded. -/
def accepted (answers : List (List Mutation × Except DbError ℕ)) : List (ℕ × List Mutation) :=
  answers.filterMap fun (mutations, answer) => answer.toOption.map fun txId => (txId, mutations)

/-- The part of a history that is one thread's. -/
def ofThread (thread : ℕ) (history : List (ℕ × ℕ × List Mutation)) : List (ℕ × List Mutation) :=
  (history.filter fun entry => entry.1 = thread).map Prod.snd

variable {s s' : SerializedTransactionEngine} {before : List (ℕ × List Mutation)}
  {history : List (ℕ × ℕ × List Mutation)}

/-- The engine has the history of the calls in the order of the lock, and every thread has the answers to its own. -/
def Explained (before : List (ℕ × List Mutation)) (s : SerializedTransactionEngine)
    (history : List (ℕ × ℕ × List Mutation)) : Prop :=
  Run .serialized s.inner (before ++ history.map Prod.snd) ∧
    ∀ thread, accepted (s.answers thread) = ofThread thread history

theorem accepted_append (answers : List (List Mutation × Except DbError ℕ)) (mutations : List Mutation)
    (answer : Except DbError ℕ) :
    accepted (answers ++ [(mutations, answer)]) =
      accepted answers ++ (answer.toOption.map fun txId => (txId, mutations)).toList := by
  rw [accepted, accepted, List.filterMap_append]
  cases answer with
  | error e => rfl
  | ok txId => rfl

/-- **One step** of any thread. -/
theorem Explained.step (h : Explained before s history) (hstep : Step s s') :
    ∃ more, Explained before s' (history ++ more) := by
  obtain ⟨hrun, hanswers⟩ := h
  cases hstep with
  | lock thread hfree hcalls => exact ⟨[], by rw [List.append_nil]; exact ⟨hrun, hanswers⟩⟩
  | @commitBatch thread mutations rest answer inner hholder hcalls hcommit =>
    cases answer with
    | error e =>
      refine ⟨[], ?_⟩
      rw [List.append_nil]
      refine ⟨hrun.failed hcommit, fun other => ?_⟩
      by_cases hother : other = thread
      · subst hother
        simp only [Function.update_self]
        rw [accepted_append, ← hanswers]
        simp [Except.toOption]
      · simp only [Function.update_of_ne hother]
        exact hanswers other
    | ok txId =>
      refine ⟨[(thread, txId, mutations)], ?_, fun other => ?_⟩
      · rw [List.map_append, ← List.append_assoc]
        exact hrun.committed hcommit
      · by_cases hother : other = thread
        · subst hother
          simp only [Function.update_self]
          rw [accepted_append, hanswers, ofThread, ofThread, List.filter_append]
          simp [Except.toOption]
        · simp only [Function.update_of_ne hother]
          rw [hanswers, ofThread, ofThread, List.filter_append]
          simp [Ne.symm hother]

/-- **Any order of the threads.** -/
theorem Explained.run (h : Explained before s history) (hsteps : Relation.ReflTransGen Step s s') :
    ∃ more, Explained before s' (history ++ more) := by
  induction hsteps with
  | refl => exact ⟨[], by rw [List.append_nil]; exact h⟩
  | tail _ hstep ih =>
    obtain ⟨more, hmore⟩ := ih
    obtain ⟨last, hlast⟩ := hmore.step hstep
    exact ⟨more ++ last, by rw [← List.append_assoc]; exact hlast⟩

end SerializedTransactionEngine

open SerializedTransactionEngine

end DbLab.Tx
