import DbLab.Generation.Compaction

/-!
# Routed handles

A `GenerationLogEngine` routes every operation to the log of the authoritative generation. Under the
writer lease it looks at the highest marker, and reads the directory again only when this marker is
above the generation that it has open.
-/

namespace DbLab.Generation

open Log

/-- What `open_managed_generation` does to a path: the file is created when there is none, and an
incomplete last record is cut off. -/
def openAt (name : Name) (io : Io) (d : Directory) : Except GenerationError LogEngine × Directory :=
  match io, d.find name with
  | .failure _, _ => (.error .io, d)
  | .success, some .other => (.error .io, d)
  | .success, some (.regular bytes) =>
    match LogEngine.openFile (some bytes) with
    | .ok engine => (.ok engine, d.insert name (.regular engine.log.file))
    | .error e => (.error (.database e), d)
  | .success, none =>
    match LogEngine.openFile none with
    | .ok engine => (.ok engine, d.insert name (.regular engine.log.file))
    | .error e => (.error (.database e), d)

def openManagedGeneration (name : Name) : DirTask LogEngine := Task.act (openAt name)

def corruption (reason : String) : GenerationError := .database (.corruption 0 reason)

/-- Source `resolve_authority`: the generation and its open log. -/
def resolveAuthority (minimumGeneration : ℕ) : DirTask (ℕ × LogEngine) := do
  let verified ← verifyGenerationDirectory
  let generation := verified.authoritativeGeneration
  rejectWhen (generation < minimumGeneration)
    (corruption s!"generation authority regressed from required minimum {minimumGeneration} to {generation}; rollback is forbidden")
  let inner ← openManagedGeneration verified.authoritativeLog
  let afterOpen ← verifyGenerationDirectory
  let afterGeneration := afterOpen.authoritativeGeneration
  rejectWhen (afterGeneration < minimumGeneration ∨ afterGeneration ≠ generation)
    (corruption s!"generation authority changed while opening generation {generation}; post-open authority is {afterGeneration}")
  rejectWhen (afterOpen.authoritativeLog ≠ verified.authoritativeLog)
    (corruption "post-open authoritative generation path differs from the opened append log")
  pure (generation, inner)

/-- Source `GenerationLogEngine`; the path is that of its inner engine. -/
structure GenerationLogEngine where
  authoritativeGeneration : ℕ
  path : Name
  inner : LogEngine
  poisoned : Bool
  deriving DecidableEq

/-- The operations of `KvEngine` on keys. -/
inductive Request
  | put (key value : Bytes)
  | get (key : Bytes)
  | delete (key : Bytes)
  deriving DecidableEq

/-- The operation on an append log. -/
def Request.perform : Request → Prog LogEngine DbError (Option Bytes)
  | .put key value => LogEngine.put key value
  | .get key => LogEngine.get key
  | .delete key => LogEngine.delete key

/-- The operation on the engine of the log at a path. What it appends goes to the file; when the write fails, a
part of it does. -/
def requestAt (path : Name) (engine : LogEngine) (request : Request) (io : Io) (d : Directory) :
    Except GenerationError (Except GenerationError (Option Bytes) × LogEngine) × Directory :=
  let engine := engineAt d path engine
  match request.perform engine with
  | (result, next) =>
    let appended := next.log.file.drop engine.log.file.length
    match io with
    | .success => (.ok (result.mapError .database, next), appendTo d path appended)
    | .failure written =>
      if appended = [] then (.ok (result.mapError .database, next), d)
      else (.ok (.error .io, { engine with poisoned := true }), appendTo d path (appended.take written))

namespace GenerationLogEngine

def poison (h : GenerationLogEngine) : GenerationLogEngine := { h with poisoned := true }

/-- Source `refresh_authority`: its result and the handle behind it. -/
def refreshAuthority (h : GenerationLogEngine) : DirTask (Except GenerationError Unit × GenerationLogEngine) :=
  if h.poisoned then pure (.error (.database .poisoned), h)
  else do
    match ← scan.attempt with
    | .error e => pure (.error e, h.poison)
    | .ok ns =>
      match ns.markerFiles.max with
      | none =>
        pure (.error (corruption "generation directory no longer contains a committed generation marker"), h.poison)
      | some highest =>
        if highest < h.authoritativeGeneration then
          pure (.error (corruption s!"generation authority regressed from {h.authoritativeGeneration} to marker frontier {highest}; rollback is forbidden"),
            h.poison)
        else if highest = h.authoritativeGeneration then pure (.ok (), h)
        else do
          match ← (resolveAuthority highest).attempt with
          | .error e => pure (.error e, h.poison)
          | .ok (generation, inner) =>
            pure (.ok (), { h with
              authoritativeGeneration := generation
              path := canonicalGenerationName generation
              inner := inner })

/-- Source `put`, `get` and `delete`: under the lease, behind the refresh. -/
def operate (h : GenerationLogEngine) (request : Request) :
    DirTask (Except GenerationError (Option Bytes) × GenerationLogEngine) := do
  match ← acquireLease.attempt with
  | .error e => pure (.error e, h)
  | .ok () => do
    match ← h.refreshAuthority with
    | (.error e, h) => pure (.error e, h)
    | (.ok (), h) => do
      let (result, inner) ← Task.act (requestAt h.path h.inner request)
      pure (result, { h with inner := inner })

/-- One operation after the other. -/
def operateAll (h : GenerationLogEngine) :
    List Request → DirTask (List (Except GenerationError (Option Bytes)) × GenerationLogEngine)
  | [] => pure ([], h)
  | request :: requests => do
    let (result, h) ← h.operate request
    let (results, h) ← h.operateAll requests
    pure (result :: results, h)

end GenerationLogEngine

theorem openAt_regular {d : Directory} {name : Name} {bytes : Bytes} {engine : LogEngine}
    (hfind : d.find name = some (.regular bytes)) (hopen : LogEngine.openFile (some bytes) = .ok engine) :
    openAt name .success d = (.ok engine, d.insert name (.regular engine.log.file)) := by
  unfold openAt
  simp only [hfind, hopen]

/-- An open between two verifications that agree. -/
theorem resolveAuthority_run {d d₂ : Directory} {s s₂ : GenerationVerificationSummary} {inner : LogEngine}
    {minimum : ℕ} (hverify : verifyGenerationDirectory.run d = (.ok s, d))
    (hopen : openAt s.authoritativeLog .success d = (.ok inner, d₂))
    (hverify₂ : verifyGenerationDirectory.run d₂ = (.ok s₂, d₂))
    (hmin : minimum ≤ s.authoritativeGeneration)
    (hauth : s₂.authoritativeGeneration = s.authoritativeGeneration)
    (hlog : s₂.authoritativeLog = s.authoritativeLog) :
    (resolveAuthority minimum).run d = (.ok (s.authoritativeGeneration, inner), d₂) := by
  rw [Task.run_eq_iff] at hverify hverify₂ ⊢
  refine runs_bind.2 ⟨s, d, hverify, ?_⟩
  refine runs_bind.2 ⟨(), d, runs_rejectWhen.2 ⟨not_lt.2 hmin, rfl⟩, ?_⟩
  refine runs_bind.2 ⟨inner, d₂, Task.runs_act.2 ⟨.success, rfl, hopen⟩, ?_⟩
  refine runs_bind.2 ⟨s₂, d₂, hverify₂, ?_⟩
  refine runs_bind.2 ⟨(), d₂, runs_rejectWhen.2 ⟨?_, rfl⟩, ?_⟩
  · rw [hauth]
    exact not_or.2 ⟨not_lt.2 hmin, not_not.2 rfl⟩
  refine runs_bind.2 ⟨(), d₂, runs_rejectWhen.2 ⟨not_not.2 hlog, rfl⟩, ?_⟩
  exact runs_pure.2 ⟨rfl, rfl⟩

end DbLab.Generation
