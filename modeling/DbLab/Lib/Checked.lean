import Mathlib.Tactic

/-!
# Successful checks

When a computation in `Except` ends well. Each lemma turns the success of a composed computation
into the success of its parts, so that a chain of guards is read as the conjunction of what it
guards.
-/

namespace DbLab.Checked

variable {ε α β : Type}

@[simp] theorem ok_bind (a : α) (f : α → Except ε β) : (Except.ok a >>= f) = f a := rfl

@[simp] theorem error_bind (e : ε) (f : α → Except ε β) :
    ((Except.error e : Except ε α) >>= f) = .error e := rfl

@[simp] theorem throw_eq (e : ε) : (throw e : Except ε α) = .error e := rfl

@[simp] theorem pure_eq (a : α) : (pure a : Except ε α) = .ok a := rfl

/-- A sequence succeeds when its first part does and then the rest. -/
@[simp] theorem bind_eq_ok {x : Except ε α} {f : α → Except ε β} {b : β} :
    (x >>= f) = .ok b ↔ ∃ a, x = .ok a ∧ f a = .ok b := by
  cases x with
  | error e => simp
  | ok a => simp

@[simp] theorem map_eq_ok {x : Except ε α} {f : α → β} {b : β} :
    (f <$> x) = .ok b ↔ ∃ a, x = .ok a ∧ f a = b := by
  cases x with
  | error e => simp [Functor.map, Except.map]
  | ok a => simp [Functor.map, Except.map]

/-- Another error is no other success. -/
theorem mapError_eq_ok {ε' : Type} {x : Except ε α} {f : ε → ε'} {a : α} : x.mapError f = .ok a ↔ x = .ok a := by
  cases x with
  | error e => simp [Except.mapError]
  | ok b => simp [Except.mapError]

/-- A guard that fails when `p` holds. -/
@[simp] theorem guard_eq_ok {p : Prop} [Decidable p] {e : ε} {x : Except ε α} {a : α} :
    (if p then .error e else x) = .ok a ↔ ¬ p ∧ x = .ok a := by
  split_ifs with h <;> simp [h]

/-- A guard that fails unless `p` holds. -/
@[simp] theorem guard_not_eq_ok {p : Prop} [Decidable p] {e : ε} {x : Except ε α} {a : α} :
    (if p then x else .error e) = .ok a ↔ p ∧ x = .ok a := by
  split_ifs with h <;> simp [h]

/-- Mapping a list succeeds when it does for every element. -/
theorem mapM_eq_ok {f : α → Except ε β} {l : List α} {ys : List β} :
    l.mapM f = .ok ys ↔ List.Forall₂ (fun x y => f x = .ok y) l ys := by
  induction l generalizing ys with
  | nil => cases ys <;> simp
  | cons x l ih =>
    cases ys with
    | nil => simp
    | cons y ys => simp [ih]

theorem forM_eq_ok {f : α → Except ε Unit} {l : List α} :
    l.forM f = .ok () ↔ ∀ x ∈ l, f x = .ok () := by
  induction l with
  | nil => exact iff_of_true rfl (by simp)
  | cons x l ih =>
    have hstep : (x :: l).forM f = (f x >>= fun _ => l.forM f) := rfl
    rw [hstep, bind_eq_ok, List.forall_mem_cons, ← ih]
    exact ⟨fun ⟨_, h, h'⟩ => ⟨h, h'⟩, fun ⟨h, h'⟩ => ⟨(), h, h'⟩⟩

theorem forM_eq_error {f : α → Except ε Unit} {l : List α} {e : ε}
    (h : l.forM f = .error e) : ∃ a ∈ l, f a = .error e := by
  induction l with
  | nil => cases h
  | cons a l ih =>
    have hstep : (f a >>= fun _ => l.forM f) = .error e := h
    cases ha : f a with
    | error e' =>
      rw [ha] at hstep
      cases hstep
      exact ⟨a, List.mem_cons_self, ha⟩
    | ok u =>
      rw [ha, ok_bind] at hstep
      obtain ⟨b, hb, hbe⟩ := ih hstep
      exact ⟨b, List.mem_cons_of_mem _ hb, hbe⟩

/-- The kind of the errors of a composition. -/
theorem error_of_bind {P : ε → Prop} {x : Except ε α} {f : α → Except ε β} {e : ε}
    (hx : ∀ e, x = .error e → P e) (hf : ∀ a e, f a = .error e → P e) (h : (x >>= f) = .error e) : P e := by
  cases x with
  | error e =>
    cases h
    exact hx e rfl
  | ok a => exact hf a e h

/-- Mapping a list in lock step with the list of results. -/
theorem mapM_eq_ok_map {f : α → Except ε β} {g : α → β} {l : List α}
    (h : ∀ x ∈ l, f x = .ok (g x)) : l.mapM f = .ok (l.map g) := by
  rw [mapM_eq_ok]
  induction l with
  | nil => exact .nil
  | cons x l ih =>
    exact .cons (h x (by simp)) (ih fun y hy => h y (by simp [hy]))

/-- In two related lists, an element of the second is related to one of the first. -/
theorem exists_of_mem_right {R : α → β → Prop} {l : List α} {m : List β} (h : List.Forall₂ R l m)
    {b : β} (hb : b ∈ m) : ∃ a ∈ l, R a b := by
  induction h with
  | nil => cases hb
  | @cons a c l m hac _ ih =>
    rcases List.mem_cons.1 hb with rfl | hb
    · exact ⟨a, by simp, hac⟩
    · obtain ⟨a', ha', hr⟩ := ih hb
      exact ⟨a', by simp [ha'], hr⟩

/-- A relation between two lists is weakened with the elements of the second at hand. -/
theorem forall₂_imp_right {R S : α → β → Prop} {l : List α} {m : List β} (h : List.Forall₂ R l m)
    (hS : ∀ a, ∀ b ∈ m, R a b → S a b) : List.Forall₂ S l m := by
  induction h with
  | nil => exact .nil
  | @cons a b l m hab _ ih =>
    exact .cons (hS a b (by simp) hab) (ih fun a' b' hb => hS a' b' (by simp [hb]))

/-- Two lists that are related to one list have equal values when related elements do. -/
theorem map_eq_map_of_forall₂ {γ δ : Type} {R : α → β → Prop} {S : α → γ → Prop} {f : β → δ}
    {g : γ → δ} {l : List α} {m : List β} {m' : List γ} (h : List.Forall₂ R l m)
    (h' : List.Forall₂ S l m') (hfg : ∀ a, ∀ b ∈ m, ∀ c ∈ m', R a b → S a c → f b = g c) :
    m.map f = m'.map g := by
  induction h generalizing m' with
  | nil => cases h'; rfl
  | @cons a b l m hab _ ih =>
    cases h' with
    | @cons _ c _ m' hac h' =>
      rw [List.map_cons, List.map_cons, hfg a b (by simp) c (by simp) hab hac,
        ih h' fun x y hy z hz => hfg x y (by simp [hy]) z (by simp [hz])]

end DbLab.Checked
