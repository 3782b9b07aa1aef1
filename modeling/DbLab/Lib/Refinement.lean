import DbLab.Lib.Prog

/-!
# Refinement up to the first error

`Refines R x y` says that from states that `R` relates every success of `x` is a success of `y` with the same
value, in states that `R` relates again; nothing is said of the errors of `x`. Programs that refine each other
step by step do so when they are put together, so that a whole run is compared by comparing its steps.
-/

namespace DbLab.Prog

variable {σ τ ε δ α β γ : Type} {R : σ → τ → Prop} {s : σ} {t : τ}

/-- Rename the error. -/
def mapError (f : ε → δ) (x : Prog σ ε α) : Prog σ δ α := fun s =>
  match x s with
  | (.ok a, s') => (.ok a, s')
  | (.error e, s') => (.error (f e), s')

theorem mapError_ok {f : ε → δ} {x : Prog σ ε α} {a : α} {s' : σ} (h : x s = (.ok a, s')) :
    x.mapError f s = (.ok a, s') := by
  rw [mapError, h]

theorem mapError_error {f : ε → δ} {x : Prog σ ε α} {e : ε} {s' : σ} (h : x s = (.error e, s')) :
    x.mapError f s = (.error (f e), s') := by
  rw [mapError, h]

theorem mapError_eq_ok {f : ε → δ} {x : Prog σ ε α} {a : α} {s' : σ} :
    x.mapError f s = (.ok a, s') ↔ x s = (.ok a, s') := by
  refine ⟨fun h => ?_, mapError_ok⟩
  rcases hx : x s with ⟨_ | _, _⟩
  · rw [mapError_error hx] at h
    cases h
  · rw [mapError_ok hx] at h
    cases h
    rfl

/-- **Each success of `x` is one of `y`.** -/
def Refines (R : σ → τ → Prop) (x : Prog σ ε α) (y : Prog τ δ α) : Prop :=
  ∀ s t, R s t → ∀ a s', x s = (.ok a, s') → ∃ t', y t = (.ok a, t') ∧ R s' t'

theorem refines_pure (a : α) : Refines R (pure a : Prog σ ε α) (pure a : Prog τ δ α) := by
  intro s t h b s' hrun
  cases hrun
  exact ⟨t, rfl, h⟩

theorem refines_ofExcept (x : Except ε α) : Refines R (ofExcept x : Prog σ ε α) (ofExcept x : Prog τ ε α) := by
  intro s t h a s' hrun
  rw [ofExcept, Prod.mk.injEq] at hrun
  obtain ⟨rfl, rfl⟩ := hrun
  exact ⟨t, rfl, h⟩

theorem Refines.bind {x : Prog σ ε α} {y : Prog τ δ α} {f : α → Prog σ ε β} {g : α → Prog τ δ β}
    (h : Refines R x y) (hf : ∀ a, Refines R (f a) (g a)) : Refines R (x >>= f) (y >>= g) := by
  intro s t hrel b s' hrun
  obtain ⟨a, middle, hx, hrest⟩ := bind_eq_ok.1 hrun
  obtain ⟨t₁, hy, hrel₁⟩ := h s t hrel a middle hx
  obtain ⟨t₂, hg, hrel₂⟩ := hf a middle t₁ hrel₁ b s' hrest
  exact ⟨t₂, bind_eq_ok.2 ⟨a, t₁, hy, hg⟩, hrel₂⟩

theorem Refines.map {x : Prog σ ε α} {y : Prog τ δ α} (h : Refines R x y) (f : α → β) :
    Refines R (f <$> x) (f <$> y) :=
  h.bind fun a => refines_pure (f a)

/-- **A run of steps**, each of which refines its counterpart. -/
theorem refines_mapM {step : γ → Prog σ ε α} {step' : γ → Prog τ δ α} (h : ∀ c, Refines R (step c) (step' c))
    (cs : List γ) : Refines R (cs.mapM step) (cs.mapM step') := by
  induction cs with
  | nil => exact refines_pure []
  | cons c cs ih =>
    rw [List.mapM_cons, List.mapM_cons]
    exact (h c).bind fun a => ih.bind fun as => refines_pure (a :: as)

end DbLab.Prog
