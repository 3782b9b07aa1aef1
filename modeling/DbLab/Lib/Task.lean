import Mathlib.Tactic

/-!
# Programs that interleave

A `Task` is a program over a shared state. It takes one atomic step after another, and what it does
next depends on what the steps have returned; a step may be disturbed, for example by an I/O error.
Any number of tasks interleave in a `World`, where a task may also die between two of its steps.

`Safe` is the rule to reason about one task. The other tasks are seen through a relation that all of
their steps keep; what the task has seen may therefore be used later as far as the relation keeps it.
An auxiliary state, which no task reads, may record what the run has done.
-/

namespace DbLab

/-- Whether a step succeeds; a write that fails has written some of its bytes. -/
inductive Io
  | success
  | failure (written : ℕ)
  deriving DecidableEq, Repr

/-- A program that takes atomic steps on a state. -/
inductive Task (σ ε : Type) (α : Type) : Type 1
  | done (result : Except ε α)
  | step {β : Type} (act : Io → σ → β × σ) (next : β → Task σ ε α)

namespace Task

variable {σ ε α β γ : Type}

def bind (x : Task σ ε α) (f : α → Task σ ε β) : Task σ ε β :=
  match x with
  | done (.ok a) => f a
  | done (.error e) => done (.error e)
  | step act next => step act fun b => bind (next b) f

instance : Monad (Task σ ε) where
  pure a := done (.ok a)
  bind := bind

def throw (e : ε) : Task σ ε α := done (.error e)

def ofExcept (x : Except ε α) : Task σ ε α := done x

/-- A single step. -/
def act (a : Io → σ → Except ε α × σ) : Task σ ε α := step a done

/-- The result of a task as a value, so that its error can be handled. -/
def attempt (x : Task σ ε α) : Task σ ε (Except ε α) :=
  match x with
  | done r => done (.ok r)
  | step act next => step act fun b => attempt (next b)

/-- Errors in the words of the caller. -/
def mapError {ε' : Type} (f : ε → ε') (x : Task σ ε α) : Task σ ε' α :=
  match x with
  | done (.ok a) => done (.ok a)
  | done (.error e) => done (.error (f e))
  | step act next => step act fun b => mapError f (next b)

/-- The run of a task that nothing disturbs. -/
def run : Task σ ε α → σ → Except ε α × σ
  | done r, s => (r, s)
  | step act next, s => run (next (act .success s).1) (act .success s).2

/-- A run of the task alone, in which every step goes as `allowed` permits. -/
inductive Runs (allowed : Io → Prop) : Task σ ε α → σ → Except ε α → σ → Prop
  | done {r s} : Runs allowed (done r) s r s
  | step {β : Type} {act : Io → σ → β × σ} {next : β → Task σ ε α} {s r s'} (io : Io) :
    allowed io → Runs allowed (next (act io s).1) (act io s).2 r s' →
      Runs allowed (step act next) s r s'

section Runs

variable {allowed : Io → Prop} {s s' : σ} {a : α} {b : β} {e : ε} {r : Except ε α} {t : Task σ ε α}

theorem runs_done {r' : Except ε α} : Runs allowed (done r') s r s' ↔ r = r' ∧ s' = s := by
  constructor
  · rintro ⟨⟩
    exact ⟨rfl, rfl⟩
  · rintro ⟨rfl, rfl⟩
    exact .done

theorem runs_act {act : Io → σ → Except ε α × σ} :
    Runs allowed (Task.act act) s r s' ↔ ∃ io, allowed io ∧ act io s = (r, s') := by
  constructor
  · rintro (_ | ⟨io, hio, h⟩)
    obtain ⟨rfl, rfl⟩ := runs_done.1 h
    exact ⟨io, hio, rfl⟩
  · rintro ⟨io, hio, h⟩
    refine .step io hio (runs_done.2 ?_)
    rw [h]
    exact ⟨rfl, rfl⟩

/-- The undisturbed run. -/
theorem run_eq_iff : t.run s = (r, s') ↔ Runs (· = .success) t s r s' := by
  induction t generalizing s with
  | done r' =>
    rw [runs_done, run, Prod.mk.injEq]
    exact and_congr eq_comm eq_comm
  | step act next ih =>
    rw [run, ih]
    constructor
    · exact fun h => .step .success rfl h
    · rintro (_ | ⟨io, rfl, h⟩)
      exact h

theorem runs_bind_ok {f : α → Task σ ε β} :
    Runs allowed (t.bind f) s (.ok b) s' ↔
      ∃ a s₁, Runs allowed t s (.ok a) s₁ ∧ Runs allowed (f a) s₁ (.ok b) s' := by
  induction t generalizing s with
  | done r' =>
    cases r' with
    | ok a =>
      constructor
      · exact fun h => ⟨a, s, .done, h⟩
      · rintro ⟨a', s₁, h, hf⟩
        obtain ⟨ha, rfl⟩ := runs_done.1 h
        cases ha
        exact hf
    | error e =>
      constructor
      · intro h
        obtain ⟨h, -⟩ := runs_done.1 h
        cases h
      · rintro ⟨a', s₁, h, -⟩
        obtain ⟨h, -⟩ := runs_done.1 h
        cases h
  | step act next ih =>
    constructor
    · rintro (_ | ⟨io, hio, h⟩)
      obtain ⟨a, s₁, ht, hf⟩ := (ih _).1 h
      exact ⟨a, s₁, .step io hio ht, hf⟩
    · rintro ⟨a, s₁, ht, hf⟩
      rcases ht with _ | ⟨io, hio, h⟩
      exact .step io hio ((ih _).2 ⟨a, s₁, h, hf⟩)

theorem runs_attempt {r' : Except ε (Except ε α)} :
    Runs allowed t.attempt s r' s' ↔ ∃ r, r' = .ok r ∧ Runs allowed t s r s' := by
  induction t generalizing s with
  | done r₀ =>
    rw [attempt, runs_done]
    constructor
    · rintro ⟨rfl, rfl⟩
      exact ⟨r₀, rfl, .done⟩
    · rintro ⟨r, rfl, h⟩
      obtain ⟨rfl, rfl⟩ := runs_done.1 h
      exact ⟨rfl, rfl⟩
  | step act next ih =>
    constructor
    · rintro (_ | ⟨io, hio, h⟩)
      obtain ⟨r, hr, ht⟩ := (ih _).1 h
      exact ⟨r, hr, .step io hio ht⟩
    · rintro ⟨r, hr, ht⟩
      rcases ht with _ | ⟨io, hio, h⟩
      exact .step io hio ((ih _).2 ⟨r, hr, h⟩)

theorem runs_mapError_ok {ε' : Type} {f : ε → ε'} :
    Runs allowed (t.mapError f) s (.ok a) s' ↔ Runs allowed t s (.ok a) s' := by
  induction t generalizing s with
  | done r' =>
    cases r' with
    | ok a' =>
      rw [mapError, runs_done, runs_done, Except.ok.injEq, Except.ok.injEq]
    | error e =>
      rw [mapError, runs_done, runs_done]
      simp
  | step act next ih =>
    constructor
    · rintro (_ | ⟨io, hio, h⟩)
      exact .step io hio ((ih _).1 h)
    · rintro (_ | ⟨io, hio, h⟩)
      exact .step io hio ((ih _).2 h)

end Runs

/-- The states in which a task that runs alone may die, when its steps fare as `allowed`. A step in the middle
of which it dies is one that fails and is the last. -/
inductive Stops (allowed : Io → Prop) : Task σ ε α → σ → σ → Prop
  | here {t : Task σ ε α} {s : σ} : Stops allowed t s s
  | later {β : Type} {act : Io → σ → β × σ} {next : β → Task σ ε α} {s s' : σ} (io : Io) : allowed io →
    Stops allowed (next (act io s).1) (act io s).2 s' → Stops allowed (step act next) s s'

/-- Whatever state a step of the task meets, `R` relates it to the state behind the step. -/
def Steady (R : σ → σ → Prop) : Task σ ε α → Prop
  | done _ => True
  | step act next => ∀ s io, R s (act io s).2 ∧ Steady R (next (act io s).1)

section Stops

variable {s s' : σ} {a : α} {r : Except ε α} {t : Task σ ε α} {f : α → Task σ ε β} {R : σ → σ → Prop}
  {allowed : Io → Prop}

theorem stops_done (h : Stops allowed (done r) s s') : s' = s := by
  cases h
  rfl

theorem stops_act {act : Io → σ → Except ε α × σ} (h : Stops allowed (Task.act act) s s') :
    s' = s ∨ ∃ io, s' = (act io s).2 := by
  rcases h with _ | ⟨io, -, h⟩
  · exact .inl rfl
  · exact .inr ⟨io, stops_done h⟩

/-- A run ends in a state in which the task may die. -/
theorem Runs.stops (h : Runs allowed t s r s') : Stops allowed t s s' := by
  induction h with
  | done => exact .here
  | step io hio _ ih => exact .later io hio ih

theorem stops_bind (h : Stops allowed (t >>= f) s s') :
    Stops allowed t s s' ∨ ∃ a s₁, Runs allowed t s (.ok a) s₁ ∧ Stops allowed (f a) s₁ s' := by
  replace h : Stops allowed (t.bind f) s s' := h
  induction t generalizing s with
  | done r =>
    cases r with
    | ok a => exact .inr ⟨a, s, .done, h⟩
    | error e =>
      cases h
      exact .inl .here
  | step act next ih =>
    rcases h with _ | ⟨io, hio, h⟩
    · exact .inl .here
    · rcases ih _ h with h | ⟨a, s₁, ht, hf⟩
      · exact .inl (.later io hio h)
      · exact .inr ⟨a, s₁, .step io hio ht, hf⟩

theorem stops_attempt (h : Stops allowed t.attempt s s') : Stops allowed t s s' := by
  induction t generalizing s with
  | done r =>
    cases h
    exact .here
  | step act next ih =>
    rcases h with _ | ⟨io, hio, h⟩
    · exact .here
    · exact .later io hio (ih _ h)

theorem stops_mapError {ε' : Type} {g : ε → ε'} (h : Stops allowed (t.mapError g) s s') : Stops allowed t s s' := by
  induction t generalizing s with
  | done r =>
    cases r with
    | ok a | error e =>
      cases h
      exact .here
  | step act next ih =>
    rcases h with _ | ⟨io, hio, h⟩
    · exact .here
    · exact .later io hio (ih _ h)

theorem steady_true : Steady (fun _ _ => True) t := by
  induction t with
  | done r => trivial
  | step act next ih => exact fun s io => ⟨trivial, ih _⟩

theorem Steady.mono {R' : σ → σ → Prop} (h : Steady R t) (hR : ∀ s s', R s s' → R' s s') : Steady R' t := by
  induction t with
  | done r => trivial
  | step act next ih => exact fun s io => ⟨hR _ _ (h s io).1, ih _ (h s io).2⟩

theorem Steady.act {act : Io → σ → Except ε α × σ} (h : ∀ s io, R s (act io s).2) : Steady R (Task.act act) :=
  fun s io => ⟨h s io, trivial⟩

theorem Steady.bind (h : Steady R t) (hf : ∀ a, Steady R (f a)) : Steady R (t >>= f) := by
  show Steady R (t.bind f)
  induction t with
  | done r =>
    cases r with
    | ok a => exact hf a
    | error e => trivial
  | step act next ih => exact fun s io => ⟨(h s io).1, ih _ (h s io).2⟩

theorem Steady.attempt (h : Steady R t) : Steady R t.attempt := by
  induction t with
  | done r => trivial
  | step act next ih => exact fun s io => ⟨(h s io).1, ih _ (h s io).2⟩

theorem Steady.mapError {ε' : Type} {g : ε → ε'} (h : Steady R t) : Steady R (t.mapError g) := by
  induction t with
  | done r =>
    cases r with
    | ok a | error e => trivial
  | step act next ih => exact fun s io => ⟨(h s io).1, ih _ (h s io).2⟩

/-- Wherever a steady task dies, the relation holds from its start. -/
theorem Steady.stops (hrefl : ∀ s, R s s) (htrans : ∀ ⦃x y z⦄, R x y → R y z → R x z) (h : Steady R t)
    (hs : Stops allowed t s s') : R s s' := by
  induction hs with
  | here => exact hrefl _
  | later io _ _ ih => exact htrans (h _ io).1 (ih (h _ io).2)

/-- The task dies in its first part, which is steady, or behind it. -/
theorem Steady.stops_bind (hrefl : ∀ s, R s s) (htrans : ∀ ⦃x y z⦄, R x y → R y z → R x z) (ht : Steady R t)
    (h : Stops allowed (t >>= f) s s') :
    R s s' ∨ ∃ a s₁, Runs allowed t s (.ok a) s₁ ∧ R s s₁ ∧ Stops allowed (f a) s₁ s' := by
  rcases Task.stops_bind h with h | ⟨a, s₁, hrun, h⟩
  · exact .inl (ht.stops hrefl htrans h)
  · exact .inr ⟨a, s₁, hrun, ht.stops hrefl htrans hrun.stops, h⟩

/-- The state behind the first steps. -/
def stateAfter : ℕ → Task σ ε α → σ → σ
  | 0, _, s => s
  | _ + 1, .done _, s => s
  | k + 1, step act next, s => stateAfter k (next (act .success s).1) (act .success s).2

theorem stops_stateAfter (hs : allowed .success) (k : ℕ) : Stops allowed t s (stateAfter k t s) := by
  induction k generalizing t s with
  | zero => exact .here
  | succ k ih =>
    cases t with
    | done r => exact .here
    | step act next => exact .later .success hs ih

end Stops

/-- All steps of the task keep `R`, when those of the others do, and the result satisfies `Q`. The
task updates the auxiliary state by `aux`. -/
def Safe (R : σ × γ → σ × γ → Prop) (aux : σ → σ → γ → γ) (Q : Except ε α → σ × γ → Prop) :
    Task σ ε α → σ × γ → Prop
  | done r, x => ∀ y, R x y → Q r y
  | step act next, x => ∀ y, R x y → ∀ io,
    R y ((act io y.1).2, aux y.1 (act io y.1).2 y.2) ∧
      Safe R aux Q (next (act io y.1).1) ((act io y.1).2, aux y.1 (act io y.1).2 y.2)

section Safe

variable {R : σ × γ → σ × γ → Prop} {aux : σ → σ → γ → γ} {Q Q' : Except ε α → σ × γ → Prop}
  {x y : σ × γ}

@[simp] theorem pure_eq (a : α) : (pure a : Task σ ε α) = done (.ok a) := rfl

@[simp] theorem bind_eq (t : Task σ ε α) (f : α → Task σ ε β) : (t >>= f) = t.bind f := rfl

/-- What the others do in the meantime keeps a task safe. -/
theorem Safe.trans (hR : ∀ ⦃x y z⦄, R x y → R y z → R x z) {t : Task σ ε α} (h : Safe R aux Q t x)
    (hxy : R x y) : Safe R aux Q t y := by
  cases t with
  | done r => exact fun z hz => h z (hR hxy hz)
  | step act next => exact fun z hz => h z (hR hxy hz)

theorem Safe.mono {t : Task σ ε α} (h : Safe R aux Q t x) (hQ : ∀ r y, Q r y → Q' r y) :
    Safe R aux Q' t x := by
  induction t generalizing x with
  | done r => exact fun y hy => hQ r y (h y hy)
  | step act next ih =>
    intro y hy io
    obtain ⟨hstep, hnext⟩ := h y hy io
    exact ⟨hstep, ih _ hnext⟩

/-- A safe task has moved the state as the relation says. -/
theorem Safe.track (hR : ∀ ⦃x y z⦄, R x y → R y z → R x z) {t : Task σ ε α} (h : Safe R aux Q t x) :
    Safe R aux (fun r y => Q r y ∧ R x y) t x := by
  induction t generalizing x with
  | done r => exact fun y hy => ⟨h y hy, hy⟩
  | step act next ih =>
    intro y hy io
    obtain ⟨hstep, hnext⟩ := h y hy io
    exact ⟨hstep, (ih _ hnext).mono fun r z hz => ⟨hz.1, hR hy (hR hstep hz.2)⟩⟩

/-- One task behind another. -/
theorem Safe.bind {Q : Except ε β → σ × γ → Prop} (hR : ∀ x, R x x) {t : Task σ ε α} {f : α → Task σ ε β}
    (h : Safe R aux (fun r y => match r with
      | .ok a => Safe R aux Q (f a) y
      | .error e => Q (.error e) y) t x) : Safe R aux Q (t.bind f) x := by
  induction t generalizing x with
  | done r =>
    cases r with
    | ok a => exact h x (hR x)
    | error e => exact h
  | step act next ih =>
    intro y hy io
    obtain ⟨hstep, hnext⟩ := h y hy io
    exact ⟨hstep, ih _ hnext⟩

theorem Safe.attempt {Q : Except ε (Except ε α) → σ × γ → Prop} {t : Task σ ε α}
    (h : Safe R aux (fun r y => Q (.ok r) y) t x) : Safe R aux Q t.attempt x := by
  induction t generalizing x with
  | done r => exact h
  | step act next ih =>
    intro y hy io
    obtain ⟨hstep, hnext⟩ := h y hy io
    exact ⟨hstep, ih _ hnext⟩

theorem Safe.mapError {ε' : Type} {f : ε → ε'} {Q : Except ε' α → σ × γ → Prop} {t : Task σ ε α}
    (h : Safe R aux (fun r y => Q (r.mapError f) y) t x) : Safe R aux Q (t.mapError f) x := by
  induction t generalizing x with
  | done r =>
    cases r with
    | ok a => exact h
    | error e => exact h
  | step act next ih =>
    intro y hy io
    obtain ⟨hstep, hnext⟩ := h y hy io
    exact ⟨hstep, ih _ hnext⟩

end Safe

end Task

/-- How far an agent is. Every agent runs one task at most. -/
inductive Phase (σ ε α : Type) : Type 1
  | idle
  | running (task : Task σ ε α)
  | finished (result : Except ε α)
  | crashed

/-- A shared state and the agents on it. -/
structure World (σ ε α : Type) : Type 1 where
  state : σ
  agents : ℕ → Phase σ ε α

namespace World

variable {σ ε α γ : Type} {tasks : ℕ → Set (Task σ ε α)} {w w' : World σ ε α}

def setAgent (w : World σ ε α) (i : ℕ) (phase : Phase σ ε α) : World σ ε α :=
  { w with agents := Function.update w.agents i phase }

/-- What can happen next, when the agent `i` may start the tasks of `tasks i`. -/
inductive Step (tasks : ℕ → Set (Task σ ε α)) : World σ ε α → World σ ε α → Prop
  | start {w i t} : w.agents i = .idle → t ∈ tasks i → Step tasks w (w.setAgent i (.running t))
  | move {w i} {β : Type} {act : Io → σ → β × σ} {next : β → Task σ ε α} (io : Io) :
    w.agents i = .running (.step act next) →
      Step tasks w (setAgent ⟨(act io w.state).2, w.agents⟩ i (.running (next (act io w.state).1)))
  | finish {w i r} : w.agents i = .running (.done r) → Step tasks w (w.setAgent i (.finished r))
  | crash {w i t} : w.agents i = .running t → Step tasks w (w.setAgent i .crashed)

/-- Any number of steps. -/
abbrev Steps (tasks : ℕ → Set (Task σ ε α)) : World σ ε α → World σ ε α → Prop :=
  Relation.ReflTransGen (Step tasks)

variable (R : σ × γ → σ × γ → Prop) (aux : ℕ → σ → σ → γ → γ) (Q : ℕ → Except ε α → σ × γ → Prop)

/-- What is known of an agent, before, while and after it runs. -/
def PhaseSafe (tasks : ℕ → Set (Task σ ε α)) (i : ℕ) (x : σ × γ) : Phase σ ε α → Prop
  | .idle => ∀ t ∈ tasks i, ∀ y, R x y → Task.Safe R (aux i) (Q i) t y
  | .running t => Task.Safe R (aux i) (Q i) t x
  | .finished r => ∀ y, R x y → Q i r y
  | .crashed => True

/-- All agents are safe. -/
def Guarded (tasks : ℕ → Set (Task σ ε α)) (w : World σ ε α) (aside : γ) : Prop :=
  ∀ i, PhaseSafe R aux Q tasks i (w.state, aside) (w.agents i)

variable {R aux Q}

theorem PhaseSafe.trans (hR : ∀ ⦃x y z⦄, R x y → R y z → R x z) {i : ℕ} {x y : σ × γ}
    {phase : Phase σ ε α} (h : PhaseSafe R aux Q tasks i x phase) (hxy : R x y) :
    PhaseSafe R aux Q tasks i y phase := by
  cases phase with
  | idle => exact fun t ht z hz => h t ht z (hR hxy hz)
  | running t => exact Task.Safe.trans hR h hxy
  | finished r => exact fun z hz => h z (hR hxy hz)
  | crashed => trivial

/-- An agent changes its phase and the state; the others only see the state change. -/
theorem Guarded.setAgent {aside aside' : γ} (hR : ∀ ⦃x y z⦄, R x y → R y z → R x z)
    (h : Guarded R aux Q tasks w aside) {state : σ} (hstate : R (w.state, aside) (state, aside')) {i : ℕ}
    {phase : Phase σ ε α} (hi : PhaseSafe R aux Q tasks i (state, aside') phase) :
    Guarded R aux Q tasks (World.setAgent ⟨state, w.agents⟩ i phase) aside' := by
  intro j
  by_cases hij : j = i
  · subst hij
    simpa [World.setAgent] using hi
  · simpa [World.setAgent, Function.update_of_ne hij] using (h j).trans hR hstate

/-- One step keeps the relation, and all agents stay safe. -/
theorem Guarded.step {aside : γ} (hrefl : ∀ x, R x x) (htrans : ∀ ⦃x y z⦄, R x y → R y z → R x z)
    (h : Guarded R aux Q tasks w aside) (hstep : Step tasks w w') :
    ∃ aside', R (w.state, aside) (w'.state, aside') ∧ Guarded R aux Q tasks w' aside' := by
  cases hstep with
  | @start i t hidle ht =>
    have hi := h i
    rw [hidle] at hi
    exact ⟨aside, hrefl _, h.setAgent htrans (hrefl _) (hi t ht _ (hrefl _))⟩
  | @move i β act next io hrun =>
    have hi := h i
    rw [hrun] at hi
    obtain ⟨hkeep, hnext⟩ := hi _ (hrefl _) io
    exact ⟨_, hkeep, h.setAgent htrans hkeep hnext⟩
  | @finish i r hrun =>
    have hi := h i
    rw [hrun] at hi
    exact ⟨aside, hrefl _, h.setAgent htrans (hrefl _) hi⟩
  | @crash i t hrun => exact ⟨aside, hrefl _, h.setAgent htrans (hrefl _) trivial⟩

/-- **A run of safe agents keeps the relation from its start to its end.** -/
theorem Guarded.steps {aside : γ} (hrefl : ∀ x, R x x) (htrans : ∀ ⦃x y z⦄, R x y → R y z → R x z)
    (h : Guarded R aux Q tasks w aside) (hsteps : Steps tasks w w') :
    ∃ aside', R (w.state, aside) (w'.state, aside') ∧ Guarded R aux Q tasks w' aside' := by
  induction hsteps with
  | refl => exact ⟨aside, hrefl _, h⟩
  | tail _ hstep ih =>
    obtain ⟨aside₁, hkeep, hguarded⟩ := ih
    obtain ⟨aside₂, hkeep', hguarded'⟩ := hguarded.step hrefl htrans hstep
    exact ⟨aside₂, htrans hkeep hkeep', hguarded'⟩

/-- The steps of one agent alone. -/
theorem steps_running {i : ℕ} {t : Task σ ε α} (h : w.agents i = .running t) :
    Steps tasks w (World.setAgent ⟨(t.run w.state).2, w.agents⟩ i (.finished (t.run w.state).1)) := by
  induction t generalizing w with
  | done r => exact .single (.finish h)
  | step act next ih =>
    refine .head (.move .success h) ?_
    have hnext := ih (act .success w.state).1
      (w := World.setAgent ⟨(act .success w.state).2, w.agents⟩ i
        (.running (next (act .success w.state).1))) (by simp [World.setAgent])
    simpa [World.setAgent, Task.run] using hnext

/-- An agent that starts and then runs alone. -/
theorem steps_run {i : ℕ} {t : Task σ ε α} (hidle : w.agents i = .idle) (ht : t ∈ tasks i) :
    Steps tasks w (World.setAgent ⟨(t.run w.state).2, w.agents⟩ i (.finished (t.run w.state).1)) := by
  refine .head (.start hidle ht) ?_
  have hrun : Steps tasks (w.setAgent i (.running t)) _ :=
    steps_running (i := i) (t := t) (by simp [World.setAgent])
  simpa [World.setAgent] using hrun

end World

end DbLab
