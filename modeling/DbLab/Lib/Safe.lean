import DbLab.Lib.Cursor

/-!
# Computations that do not panic

`Safe x Q` says that `x` does not panic and that `Q` holds of its value when it has one: the weakest precondition
of a computation that may fail with an error, but not by an index or an overflow. A rule for each way to
build a computation, and for each checked access the bound that it needs.
-/

namespace DbLab

variable {ε α β : Type} {bytes : Bytes} {i j m n limit : ℕ}

/-- The sum of two numbers below the limit, a panic when it is not. -/
def addAt (limit m n : ℕ) : Panicking ε ℕ := orPanic (if m + n < limit then some (m + n) else none)

/-- The product of two numbers below the limit, a panic when it is not. -/
def mulAt (limit m n : ℕ) : Panicking ε ℕ := orPanic (if m * n < limit then some (m * n) else none)

/-- The number at `bytes[i..i + n]`, least significant byte first. -/
def readAt (bytes : Bytes) (i n : ℕ) : Panicking ε ℕ := leNat <$> sliceAt bytes i (i + n)

theorem addAt_eq (h : m + n < limit) : (addAt limit m n : Panicking ε ℕ) = ofResult (.ok (m + n)) := by
  rw [addAt, if_pos h]
  rfl

theorem mulAt_eq (h : m * n < limit) : (mulAt limit m n : Panicking ε ℕ) = ofResult (.ok (m * n)) := by
  rw [mulAt, if_pos h]
  rfl

theorem readAt_eq (h : i + n ≤ bytes.length) :
    (readAt bytes i n : Panicking ε ℕ) = ofResult (.ok (leNat (slice bytes i n))) := by
  rw [readAt, sliceAt_eq (Nat.le_add_right i n) h, Nat.add_sub_cancel_left]
  rfl

theorem readAt_bind {v : ℕ} {f : ℕ → Panicking ε β} (h : i + n ≤ bytes.length)
    (hv : leNat (slice bytes i n) = v) : (readAt bytes i n >>= f) = f v := by
  rw [readAt_eq h, ofResult_ok_bind, hv]

theorem orPanic_some_bind {a : α} {f : α → Panicking ε β} : (orPanic (some a) >>= f) = f a := rfl

/-- No panic, and `Q` of the value. -/
def Safe (x : Panicking ε α) (Q : α → Prop) : Prop :=
  match x.run with
  | none => False
  | some (.error _) => True
  | some (.ok a) => Q a

namespace Safe

variable {x : Panicking ε α} {f : α → Panicking ε β} {P Q : α → Prop} {R : β → Prop}

theorem pure {a : α} (h : Q a) : Safe (Pure.pure a : Panicking ε α) Q := h

theorem throw (e : ε) : Safe (MonadExcept.throw e : Panicking ε α) Q := trivial

theorem ofResult {r : Except ε α} (h : ∀ a, r = .ok a → Q a) : Safe (DbLab.ofResult r) Q := by
  cases r with
  | error e => trivial
  | ok a => exact h a rfl

/-- A computation that does not panic has a result. -/
theorem exists_result (h : Safe x Q) : ∃ r, x = DbLab.ofResult r ∧ ∀ a, r = .ok a → Q a := by
  unfold Safe at h
  match hx : x.run, h with
  | some (.error e), _ => exact ⟨.error e, hx, fun a ha => by cases ha⟩
  | some (.ok a), h =>
    refine ⟨.ok a, hx, fun b hb => ?_⟩
    cases hb
    exact h

theorem of_ok {a : α} (h : Safe x Q) (hx : x = DbLab.ofResult (.ok a)) : Q a := by
  subst hx
  exact h

theorem bind (h : Safe x P) (hf : ∀ a, P a → Safe (f a) R) : Safe (x >>= f) R := by
  obtain ⟨r, rfl, hr⟩ := h.exists_result
  cases r with
  | error e => exact throw e
  | ok a =>
    rw [ofResult_ok_bind]
    exact hf a (hr a rfl)

theorem mono (h : Safe x P) (hPQ : ∀ a, P a → Q a) : Safe x Q := by
  obtain ⟨r, rfl, hr⟩ := h.exists_result
  exact ofResult fun a ha => hPQ a (hr a ha)

/-- A check that passes tells that its condition does not hold. -/
theorem rejectWhen_bind {p : Prop} [Decidable p] {e : ε} {f : Unit → Panicking ε β} (h : ¬ p → Safe (f ()) R) :
    Safe (rejectWhen p e >>= f) R := by
  by_cases hp : p
  · rw [rejectWhen_pos hp]
    exact throw e
  · rw [rejectWhen_neg hp]
    exact h hp

theorem sliceAt_bind {f : Bytes → Panicking ε β} (hij : i ≤ j) (hj : j ≤ bytes.length)
    (h : Safe (f (slice bytes i (j - i))) R) : Safe (sliceAt bytes i j >>= f) R := by
  rw [sliceAt_eq hij hj, ofResult_ok_bind]
  exact h

theorem readAt_bind {f : ℕ → Panicking ε β} (hi : i + n ≤ bytes.length)
    (h : Safe (f (leNat (slice bytes i n))) R) : Safe (readAt bytes i n >>= f) R := by
  rw [readAt_eq hi, ofResult_ok_bind]
  exact h

theorem addAt_bind {f : ℕ → Panicking ε β} (hlt : m + n < limit) (h : Safe (f (m + n)) R) :
    Safe (addAt limit m n >>= f) R := by
  rw [addAt_eq hlt, ofResult_ok_bind]
  exact h

theorem mulAt_bind {f : ℕ → Panicking ε β} (hlt : m * n < limit) (h : Safe (f (m * n)) R) :
    Safe (mulAt limit m n >>= f) R := by
  rw [mulAt_eq hlt, ofResult_ok_bind]
  exact h

end Safe
end DbLab
