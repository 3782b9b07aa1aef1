import DbLab.Lib.Prog

/-!
# Runs that are stopped

A program is run twice: freely, and with a stop armed in its state. Up to the stop the two runs do
the same; at the stop the armed run fails, and the free run goes on. `Stopping` says which states are
before the stop, how the stop is armed, and which pairs of a free and a stopped state belong
together. `Tracks x` says that the armed run of `x` follows the free one in this way.
-/

namespace DbLab.Prog

variable {σ τ ε α β : Type}

/-- A stop: the free states before it, the armed state for such a state, and the states of the free
and of the armed run behind it. -/
structure Stopping (σ : Type) where
  before : σ → Prop
  arm : σ → σ
  hit : σ → σ → Prop

/-- A stop in a part of the state. -/
def Stopping.zoom (S : Stopping τ) (view : σ → τ) (put : σ → τ → σ) : Stopping σ where
  before s := S.before (view s)
  arm s := put s (S.arm (view s))
  hit s t := S.hit (view s) (view t)

/-- The armed run does what the free run does or is stopped, and the free run goes on from a stop. -/
structure Tracks (S : Stopping σ) (x : Prog σ ε α) : Prop where
  step : ∀ s, S.before s → S.before (x s).2 ∧ x (S.arm s) = ((x s).1, S.arm (x s).2) ∨
    S.hit (x s).2 (x (S.arm s)).2 ∧ ∃ e, (x (S.arm s)).1 = .error e
  keep : ∀ s t, S.hit s t → S.hit (x s).2 t

namespace Tracks

variable {S : Stopping σ} {x : Prog σ ε α}

theorem pure (a : α) : Tracks S (Pure.pure a : Prog σ ε α) :=
  ⟨fun _ hs => .inl ⟨hs, rfl⟩, fun _ _ h => h⟩

theorem throw (e : ε) : Tracks S (Prog.throw e : Prog σ ε α) :=
  ⟨fun _ hs => .inl ⟨hs, rfl⟩, fun _ _ h => h⟩

theorem ofExcept (x : Except ε α) : Tracks S (Prog.ofExcept x : Prog σ ε α) :=
  ⟨fun _ hs => .inl ⟨hs, rfl⟩, fun _ _ h => h⟩

/-- A read that does not see the stop. -/
theorem reads {f : σ → Except ε α} (hf : ∀ s, f (S.arm s) = f s) : Tracks S (Prog.reads f) :=
  ⟨fun s hs => .inl ⟨hs, Prod.ext (hf s) rfl⟩, fun _ _ h => h⟩

/-- A change of the state that does not touch the stop. -/
theorem modify {f : σ → σ} (hf : ∀ s, S.before s → S.before (f s) ∧ f (S.arm s) = S.arm (f s))
    (hk : ∀ s t, S.hit s t → S.hit (f s) t) : Tracks S (Prog.modify f : Prog σ ε Unit) :=
  ⟨fun s hs => .inl ⟨(hf s hs).1, Prod.ext rfl (hf s hs).2⟩, hk⟩

/-- **Sequences** track when their parts do. -/
theorem bind {f : α → Prog σ ε β} (hx : Tracks S x) (hf : ∀ a, Tracks S (f a)) :
    Tracks S (x >>= f) := by
  constructor
  · intro s hs
    rcases hfree : x s with ⟨e | a, s'⟩
    · rw [bind_error hfree]
      rcases hx.step s hs with ⟨hs', heq⟩ | ⟨hhit, e', he'⟩
      · rw [hfree] at hs' heq
        exact .inl ⟨hs', bind_error heq⟩
      · rw [hfree] at hhit
        rw [bind_error (Prod.ext he' rfl)]
        exact .inr ⟨hhit, e', rfl⟩
    · rw [bind_ok hfree]
      rcases hx.step s hs with ⟨hs', heq⟩ | ⟨hhit, e', he'⟩
      · rw [hfree] at hs' heq
        rw [bind_ok heq]
        exact (hf a).step s' hs'
      · rw [hfree] at hhit
        rw [bind_error (Prod.ext he' rfl)]
        exact .inr ⟨(hf a).keep _ _ hhit, e', rfl⟩
  · intro s t h
    have hk := hx.keep s t h
    rcases hfree : x s with ⟨e | a, s'⟩
    · rw [bind_error hfree]
      rwa [hfree] at hk
    · rw [bind_ok hfree]
      rw [hfree] at hk
      exact (hf a).keep s' t hk

theorem map {f : α → β} (hx : Tracks S x) : Tracks S (f <$> x) :=
  hx.bind fun a => pure (f a)

/-- A program that looks at the state, but not at the stop. -/
theorem get_bind {f : σ → Prog σ ε α} (hf : ∀ s, f (S.arm s) = f s) (h : ∀ s, Tracks S (f s)) :
    Tracks S (Prog.get >>= f) := by
  refine ⟨fun s hs => ?_, fun s t ht => (h s).keep s t ht⟩
  have hrun : ∀ t, (Prog.get >>= f) t = f t t := fun _ => rfl
  rw [hrun, hrun, hf]
  exact (h s).step s hs

/-- A program on a part of the state. -/
theorem zoom {S : Stopping τ} {view : σ → τ} {put : σ → τ → σ} {x : Prog τ ε α}
    (hview : ∀ s t, view (put s t) = t) (hput : ∀ s t t', put (put s t) t' = put s t')
    (hx : Tracks S x) : Tracks (S.zoom view put) (Prog.zoom view put x) := by
  have hrun : ∀ s, Prog.zoom view put x s = ((x (view s)).1, put s (x (view s)).2) := by
    intro s
    unfold Prog.zoom
    rcases x (view s) with ⟨_, _⟩
    rfl
  constructor
  · intro s hs
    simp only [hrun, Stopping.zoom, hview, hput]
    rcases hx.step (view s) hs with ⟨hs', heq⟩ | hhit
    · rw [heq]
      exact .inl ⟨hs', rfl⟩
    · exact .inr hhit
  · intro s t ht
    simp only [hrun, Stopping.zoom, hview]
    exact hx.keep _ _ ht

end Tracks
end DbLab.Prog
