import DbLab.Lib.Slice

/-!
# Readers at a cursor

Code that reads a buffer through a cursor indexes into it, and an index outside of the buffer is a panic.
A `CursorReader` has the panic as an outcome of its own. `Follows` ties it to a reader that takes its value from
the front of a list: the same values and errors, with the cursor where the rest of the list begins, and no panic.
-/

namespace DbLab

/-- A computation that fails with an error or panics; `none` is the panic. -/
abbrev Panicking (ε : Type) : Type → Type := ExceptT ε Option

/-- A reader that moves a cursor. -/
abbrev CursorReader (ε : Type) : Type → Type := StateT ℕ (Panicking ε)

variable {ε α β : Type} {bytes : Bytes} {n i j limit cursor : ℕ}

/-- A result without a panic. -/
def ofResult (r : Except ε α) : Panicking ε α := ExceptT.mk (some r)

/-- A value, or a panic when there is none. -/
def orPanic (x : Option α) : Panicking ε α := ExceptT.mk (x.map Except.ok)

/-- The slice `bytes[i..j]`. -/
def sliceAt (bytes : Bytes) (i j : ℕ) : Panicking ε Bytes :=
  orPanic (if i ≤ j ∧ j ≤ bytes.length then some (slice bytes i (j - i)) else none)

/-- The bytes of a slice as an array of `n` bytes. -/
def arrayOf (n : ℕ) (bytes : Bytes) : Panicking ε Bytes :=
  orPanic (if bytes.length = n then some bytes else none)

/-- The difference of two lengths. -/
def subAt (m n : ℕ) : Panicking ε ℕ := orPanic (if n ≤ m then some (m - n) else none)

/-- Fail when `p` holds. -/
def rejectWhen (p : Prop) [Decidable p] (e : ε) : Panicking ε Unit :=
  if p then throw e else pure ()

@[simp] theorem ofResult_ok_bind (a : α) (f : α → Panicking ε β) : (ofResult (.ok a) >>= f) = f a := rfl

@[simp] theorem ofResult_error_bind (e : ε) (f : α → Panicking ε β) :
    (ofResult (.error e) >>= f) = ofResult (.error e) := rfl

theorem sliceAt_eq (hij : i ≤ j) (hj : j ≤ bytes.length) :
    (sliceAt bytes i j : Panicking ε Bytes) = ofResult (.ok (slice bytes i (j - i))) := by
  rw [sliceAt, if_pos ⟨hij, hj⟩]
  rfl

theorem arrayOf_eq (h : bytes.length = n) : (arrayOf n bytes : Panicking ε Bytes) = ofResult (.ok bytes) := by
  rw [arrayOf, if_pos h]
  rfl

theorem subAt_eq {m : ℕ} (h : n ≤ m) : (subAt m n : Panicking ε ℕ) = ofResult (.ok (m - n)) := by
  rw [subAt, if_pos h]
  rfl

theorem rejectWhen_pos {p : Prop} [Decidable p] {e : ε} {f : Unit → Panicking ε α} (h : p) :
    (rejectWhen p e >>= f) = ofResult (.error e) := by
  rw [rejectWhen, if_pos h]
  rfl

theorem rejectWhen_neg {p : Prop} [Decidable p] {e : ε} {f : Unit → Panicking ε α} (h : ¬ p) :
    (rejectWhen p e >>= f) = f () := by
  rw [rejectWhen, if_neg h]
  rfl

/-- The cursor reader does what the reader does with the bytes between the cursor and the limit. -/
def Follows (bytes : Bytes) (limit : ℕ) (c : CursorReader ε α) (read : StateT Bytes (Except ε) α) : Prop :=
  ∀ cursor ≤ limit, match read.run ((bytes.take limit).drop cursor) with
    | .error e => c.run cursor = ofResult (.error e)
    | .ok (a, rest) => ∃ cursor' ≤ limit, rest = (bytes.take limit).drop cursor' ∧
        c.run cursor = ofResult (.ok (a, cursor'))

namespace Follows

variable {c : CursorReader ε α} {read : StateT Bytes (Except ε) α}

theorem pure (a : α) : Follows bytes limit (Pure.pure a : CursorReader ε α) (Pure.pure a) :=
  fun cursor hcursor => ⟨cursor, hcursor, rfl, rfl⟩

theorem throw (e : ε) : Follows bytes limit (MonadExcept.throw e : CursorReader ε α) (MonadExcept.throw e) :=
  fun _ _ => rfl

theorem bind {f : α → CursorReader ε β} {g : α → StateT Bytes (Except ε) β} (h : Follows bytes limit c read)
    (hf : ∀ a, Follows bytes limit (f a) (g a)) : Follows bytes limit (c >>= f) (read >>= g) := by
  intro cursor hcursor
  have hfirst := h cursor hcursor
  rw [StateT.run_bind]
  cases hread : read.run ((bytes.take limit).drop cursor) with
  | error e =>
    rw [hread] at hfirst
    show (c >>= f).run cursor = ofResult (.error e)
    rw [StateT.run_bind, show c.run cursor = ofResult (.error e) from hfirst, ofResult_error_bind]
  | ok found =>
    obtain ⟨a, rest⟩ := found
    rw [hread] at hfirst
    obtain ⟨cursor', hcursor', rfl, hrun⟩ := hfirst
    have hsecond := hf a cursor' hcursor'
    have hstep : (c >>= f).run cursor = (f a).run cursor' := by
      rw [StateT.run_bind, hrun, ofResult_ok_bind]
    rw [hstep]
    exact hsecond

theorem map {f : α → β} (h : Follows bytes limit c read) : Follows bytes limit (f <$> c) (f <$> read) := by
  rw [← bind_pure_comp, ← bind_pure_comp]
  exact h.bind fun a => pure (f a)

/-- A guard in front of both. -/
theorem guard {p : Prop} [Decidable p] {e : ε} (h : Follows bytes limit c read) :
    Follows bytes limit (if p then MonadExcept.throw e else c) (if p then MonadExcept.throw e else read) := by
  split_ifs
  · exact throw e
  · exact h

end Follows
end DbLab
