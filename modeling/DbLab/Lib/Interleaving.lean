import DbLab.Lib.Task

/-!
# One task between the steps of another

The first task runs to its end; the second one moves the state between its steps. What the second can do to
the state is a relation that all its steps keep (`Steady`); what the first reaches in spite of it is followed
step by step (`Amid`).
-/

namespace DbLab.Task

variable {σ ε ε' α β γ : Type}

/-- A run of the first task, whose steps all succeed, between steps of the second one. The steps of the first
are taken where they `may`. -/
inductive Interleaved (may : (β : Type) → (Io → σ → β × σ) → σ → Prop) :
    Task σ ε α → Task σ ε' γ → σ → Except ε α → Task σ ε' γ → σ → Prop
  | done {r : Except ε α} {c : Task σ ε' γ} {s : σ} : Interleaved may (done r) c s r c s
  | own {β : Type} {act : Io → σ → β × σ} {next : β → Task σ ε α} {c c' : Task σ ε' γ} {s s' : σ}
    {r : Except ε α} : may β act s → Interleaved may (next (act .success s).1) c (act .success s).2 r c' s' →
      Interleaved may (step act next) c s r c' s'
  | other {β : Type} {act : Io → σ → β × σ} {next : β → Task σ ε' γ} {t : Task σ ε α} {c' : Task σ ε' γ}
    {s s' : σ} {r : Except ε α} (io : Io) : Interleaved may t (next (act io s).1) (act io s).2 r c' s' →
      Interleaved may t (step act next) s r c' s'

/-- The task ends without an error and with `P`, when `R` relates the states between its steps and its own
steps are taken where they `may`. -/
def Amid (R : σ → σ → Prop) (may : (β : Type) → (Io → σ → β × σ) → σ → Prop) (P : α → σ → Prop) :
    Task σ ε α → σ → Prop
  | done (.ok a), s => ∀ s₁, R s s₁ → P a s₁
  | done (.error _), _ => False
  | step act next, s => ∀ s₁, R s s₁ → may _ act s₁ →
    Amid R may P (next (act .success s₁).1) (act .success s₁).2

section Amid

variable {R : σ → σ → Prop} {may : (β : Type) → (Io → σ → β × σ) → σ → Prop} {P P' : α → σ → Prop}
  {t : Task σ ε α} {s s₁ : σ}

theorem Amid.mono (h : Amid R may P t s) (hP : ∀ a s, P a s → P' a s) : Amid R may P' t s := by
  induction t generalizing s with
  | done r =>
    cases r with
    | ok a => exact fun s₁ hs => hP a s₁ (h s₁ hs)
    | error e => exact h
  | step act next ih => exact fun s₁ hs hmay => ih _ (h s₁ hs hmay)

/-- What the second task does in front of the first one does no harm. -/
theorem Amid.trans (htrans : ∀ ⦃x y z⦄, R x y → R y z → R x z) (h : Amid R may P t s) (hs : R s s₁) :
    Amid R may P t s₁ := by
  cases t with
  | done r =>
    cases r with
    | ok a => exact fun s₂ hs₂ => h s₂ (htrans hs hs₂)
    | error e => exact h
  | step act next => exact fun s₂ hs₂ => h s₂ (htrans hs hs₂)

theorem Amid.pure {a : α} (h : ∀ s₁, R s s₁ → P a s₁) : Amid R may P (Pure.pure a : Task σ ε α) s := h

theorem Amid.act {act : Io → σ → Except ε α × σ}
    (h : ∀ s₁, R s s₁ → may _ act s₁ → ∃ a s₂, act .success s₁ = (.ok a, s₂) ∧ ∀ s₃, R s₂ s₃ → P a s₃) :
    Amid R may P (Task.act act) s := by
  intro s₁ hs hmay
  obtain ⟨a, s₂, hact, hP⟩ := h s₁ hs hmay
  rw [hact]
  exact hP

theorem Amid.bind {P : β → σ → Prop} {f : α → Task σ ε β} (hrefl : ∀ s, R s s)
    (h : Amid R may (fun a s => Amid R may P (f a) s) t s) : Amid R may P (t >>= f) s := by
  show Amid R may P (t.bind f) s
  induction t generalizing s with
  | done r =>
    cases r with
    | ok a => exact h s (hrefl s)
    | error e => exact h
  | step act next ih => exact fun s₁ hs hmay => ih _ (h s₁ hs hmay)

theorem Amid.attempt {P : Except ε α → σ → Prop} (h : Amid R may (fun a s => P (.ok a) s) t s) :
    Amid R may P t.attempt s := by
  induction t generalizing s with
  | done r =>
    cases r with
    | ok a => exact h
    | error e => exact h.elim
  | step act next ih => exact fun s₁ hs hmay => ih _ (h s₁ hs hmay)

/-- **The run between the steps of a steady task.** -/
theorem Amid.of_interleaved {c c' : Task σ ε' γ} {s' : σ} {r : Except ε α} (hrefl : ∀ s, R s s)
    (htrans : ∀ ⦃x y z⦄, R x y → R y z → R x z) (hrun : Interleaved may t c s r c' s') (hc : Steady R c)
    (h : Amid R may P t s) : ∃ a, r = .ok a ∧ P a s' := by
  induction hrun with
  | @done r c s =>
    cases r with
    | ok a => exact ⟨a, rfl, h s (hrefl s)⟩
    | error e => exact h.elim
  | own hmay _ ih => exact ih hc (h _ (hrefl _) hmay)
  | other io _ ih => exact ih (hc _ io).2 (h.trans htrans (hc _ io).1)

end Amid

/-- The states in which a task that runs alone takes its steps have the property. -/
def allStates (p : σ → Bool) : Task σ ε α → σ → Bool
  | done _, _ => true
  | step act next, s => p s && allStates p (next (act .success s).1) (act .success s).2

/-- The run alone. -/
theorem interleaved_alone {may : (β : Type) → (Io → σ → β × σ) → σ → Prop} {p : σ → Bool}
    (hmay : ∀ β act s, p s = true → may β act s) {t : Task σ ε α} {s : σ} (h : allStates p t s = true)
    (c : Task σ ε' γ) : Interleaved may t c s (t.run s).1 c (t.run s).2 := by
  induction t generalizing s with
  | done r => exact .done
  | step act next ih =>
    rw [allStates, Bool.and_eq_true] at h
    exact .own (hmay _ _ _ h.1) (ih _ h.2)

/-- What is left of a task behind its first steps. -/
def taskAfter : ℕ → Task σ ε α → σ → Task σ ε α
  | 0, t, _ => t
  | _ + 1, done r, _ => done r
  | k + 1, step act next, s => taskAfter k (next (act .success s).1) (act .success s).2

theorem interleaved_after {may : (β : Type) → (Io → σ → β × σ) → σ → Prop} {t : Task σ ε α} {c c' : Task σ ε' γ}
    {s s' : σ} {r : Except ε α} (k : ℕ)
    (h : Interleaved may t (taskAfter k c s) (stateAfter k c s) r c' s') : Interleaved may t c s r c' s' := by
  induction k generalizing c s with
  | zero => exact h
  | succ k ih =>
    cases c with
    | done r => exact h
    | step act next => exact .other .success (ih h)

end DbLab.Task
