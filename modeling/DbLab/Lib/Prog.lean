import Mathlib.Tactic

/-!
# Programs with state and errors

`Prog σ ε α` is a computation that reads and changes a state `σ` and ends with a value or with an
error; a failed computation keeps the changes made before the failure. `wp x Q E s` says that
`x`, started in `s`, ends in a state where `Q` holds of the value or `E` of the error. The lemmas
below push `wp` through the program text, so that the specification of a function is proved from
the specifications of the functions it calls.
-/

namespace DbLab

/-- A computation over the state `σ` with errors `ε`. -/
def Prog (σ ε α : Type) : Type := σ → Except ε α × σ

namespace Prog

variable {σ τ ε α β : Type}

instance : Monad (Prog σ ε) where
  pure a := fun s => (.ok a, s)
  bind x f := fun s =>
    match x s with
    | (.ok a, s') => f a s'
    | (.error e, s') => (.error e, s')

/-- Fail with an error. -/
def throw (e : ε) : Prog σ ε α := fun s => (.error e, s)

/-- The current state. -/
def get : Prog σ ε σ := fun s => (.ok s, s)

/-- Replace the state. -/
def set (s : σ) : Prog σ ε Unit := fun _ => (.ok (), s)

/-- Change the state. -/
def modify (f : σ → σ) : Prog σ ε Unit := fun s => (.ok (), f s)

/-- A read-only computation of the state. -/
def reads (f : σ → Except ε α) : Prog σ ε α := fun s => (f s, s)

/-- A pure fallible computation. -/
def ofExcept (x : Except ε α) : Prog σ ε α := fun s => (x, s)

/-- Run a computation on a part of the state. -/
def zoom (view : σ → τ) (put : σ → τ → σ) (x : Prog τ ε α) : Prog σ ε α := fun s =>
  match x (view s) with
  | (r, t) => (r, put s t)

/-- The weakest precondition: `Q` of the value, `E` of the error. -/
def wp (x : Prog σ ε α) (Q : α → σ → Prop) (E : ε → σ → Prop) (s : σ) : Prop :=
  match x s with
  | (.ok a, s') => Q a s'
  | (.error e, s') => E e s'

variable {Q Q' : α → σ → Prop} {E E' : ε → σ → Prop} {s s' : σ}

@[simp] theorem wp_pure (a : α) : wp (pure a : Prog σ ε α) Q E s ↔ Q a s := Iff.rfl

@[simp] theorem wp_throw (e : ε) : wp (throw e : Prog σ ε α) Q E s ↔ E e s := Iff.rfl

@[simp] theorem wp_get {Q : σ → σ → Prop} : wp (get : Prog σ ε σ) Q E s ↔ Q s s := Iff.rfl

@[simp] theorem wp_set {Q : Unit → σ → Prop} : wp (set s' : Prog σ ε Unit) Q E s ↔ Q () s' :=
  Iff.rfl

@[simp] theorem wp_modify {Q : Unit → σ → Prop} (f : σ → σ) :
    wp (modify f : Prog σ ε Unit) Q E s ↔ Q () (f s) := Iff.rfl

@[simp] theorem wp_bind (x : Prog σ ε α) (f : α → Prog σ ε β) {Q : β → σ → Prop} :
    wp (x >>= f) Q E s ↔ wp x (fun a s' => wp (f a) Q E s') E s := by
  show (match (match x s with | (.ok a, s') => f a s' | (.error e, s') => (.error e, s')) with
    | (.ok b, s') => Q b s'
    | (.error e, s') => E e s') ↔ _
  unfold wp
  generalize x s = r
  rcases r with ⟨_ | a, s'⟩ <;> rfl

@[simp] theorem wp_map (f : α → β) (x : Prog σ ε α) {Q : β → σ → Prop} :
    wp (f <$> x) Q E s ↔ wp x (fun a s' => Q (f a) s') E s :=
  wp_bind x (fun a => pure (f a))

theorem wp_reads (f : σ → Except ε α) :
    wp (reads f) Q E s ↔ (∀ a, f s = .ok a → Q a s) ∧ ∀ e, f s = .error e → E e s := by
  unfold wp reads
  cases f s <;> simp

theorem wp_ofExcept (x : Except ε α) :
    wp (ofExcept x) Q E s ↔ (∀ a, x = .ok a → Q a s) ∧ ∀ e, x = .error e → E e s := by
  unfold wp ofExcept
  cases x <;> simp

theorem wp_zoom {view : σ → τ} {put : σ → τ → σ} {x : Prog τ ε α} :
    wp (zoom view put x) Q E s ↔
      wp x (fun a t => Q a (put s t)) (fun e t => E e (put s t)) (view s) := by
  unfold wp zoom
  generalize x (view s) = r
  rcases r with ⟨_ | a, t⟩ <;> rfl

theorem wp_mono {x : Prog σ ε α} (h : wp x Q E s) (hQ : ∀ a s', Q a s' → Q' a s')
    (hE : ∀ e s', E e s' → E' e s') : wp x Q' E' s := by
  unfold wp at *
  generalize x s = r at *
  rcases r with ⟨_ | a, s'⟩
  · exact hE _ _ h
  · exact hQ _ _ h

theorem wp_and {x : Prog σ ε α} (h : wp x Q E s) (h' : wp x Q' E' s) :
    wp x (fun a t => Q a t ∧ Q' a t) (fun e t => E e t ∧ E' e t) s := by
  unfold wp at *
  generalize x s = r at *
  rcases r with ⟨_ | a, s'⟩
  · exact ⟨h, h'⟩
  · exact ⟨h, h'⟩

theorem wp_ok {x : Prog σ ε α} (h : wp x Q E s) {a : α} (hx : x s = (.ok a, s')) : Q a s' := by
  unfold wp at h; rw [hx] at h; exact h

theorem wp_error {x : Prog σ ε α} (h : wp x Q E s) {e : ε} (hx : x s = (.error e, s')) :
    E e s' := by
  unfold wp at h; rw [hx] at h; exact h

theorem wp_iff_forall {x : Prog σ ε α} :
    wp x Q E s ↔ (∀ a s', x s = (.ok a, s') → Q a s') ∧ ∀ e s', x s = (.error e, s') → E e s' := by
  refine ⟨fun h => ⟨fun a s' hx => wp_ok h hx, fun e s' hx => wp_error h hx⟩, fun h => ?_⟩
  unfold wp
  rcases hx : x s with ⟨_ | a, s'⟩
  · exact h.2 _ _ hx
  · exact h.1 _ _ hx

theorem bind_ok {x : Prog σ ε α} {f : α → Prog σ ε β} {a : α} {t : σ} (h : x s = (.ok a, t)) :
    (x >>= f) s = f a t := by
  show (match x s with | (.ok a, s') => f a s' | (.error e, s') => (.error e, s')) = _
  rw [h]

theorem bind_error {x : Prog σ ε α} {f : α → Prog σ ε β} {e : ε} {t : σ}
    (h : x s = (.error e, t)) : (x >>= f) s = (.error e, t) := by
  show (match x s with | (.ok a, s') => f a s' | (.error e, s') => (.error e, s')) = _
  rw [h]

theorem get_bind (f : σ → Prog σ ε α) (s : σ) : (get >>= f) s = f s s := rfl

theorem ofExcept_ok_bind (a : α) (f : α → Prog σ ε β) (s : σ) :
    (ofExcept (.ok a) >>= f) s = f a s := rfl

theorem ofExcept_error_bind (e : ε) (f : α → Prog σ ε β) (s : σ) :
    (ofExcept (.error e) >>= f) s = (.error e, s) := rfl

/-- A successful sequence splits at its first program. -/
theorem bind_eq_ok {x : Prog σ ε α} {f : α → Prog σ ε β} {b : β} {s'' : σ} :
    (x >>= f) s = (.ok b, s'') ↔ ∃ a s', x s = (.ok a, s') ∧ f a s' = (.ok b, s'') := by
  constructor
  · intro h
    rcases hx : x s with ⟨e | a, s'⟩
    · rw [bind_error hx] at h; cases h
    · exact ⟨a, s', rfl, by rwa [bind_ok hx] at h⟩
  · rintro ⟨a, s', hx, hf⟩
    rw [bind_ok hx, hf]

theorem id_map (x : Prog σ ε α) : id <$> x = x := by
  funext s
  show (match x s with | (.ok a, s') => _ | (.error e, s') => _) = _
  rcases x s with ⟨_ | a, s'⟩ <;> rfl

theorem bind_assoc {γ : Type} (x : Prog σ ε α) (f : α → Prog σ ε β) (g : β → Prog σ ε γ) :
    x >>= f >>= g = x >>= fun a => f a >>= g := by
  funext s
  rcases hx : x s with ⟨e | a, s'⟩
  · rw [bind_error hx, bind_error (bind_error hx)]
  · rw [bind_ok hx]
    show (match (x >>= f) s with | (.ok a, s') => _ | (.error e, s') => _) = _
    rw [bind_ok hx]
    rfl

instance : LawfulMonad (Prog σ ε) := .mk' _ id_map (fun _ _ => rfl) bind_assoc

end Prog
end DbLab
