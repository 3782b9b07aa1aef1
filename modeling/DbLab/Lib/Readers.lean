import DbLab.Lib.Bytes

/-!
# Readers

A reader takes its value from the front of a list and leaves the rest. `Reads` says which symbols it takes
for a value, whatever follows; readers in sequence take symbols in sequence. Numbers of one width that are
written most significant byte first sort as numbers.
-/

namespace DbLab

variable {β ε α γ : Type}

/-- The reader takes the value from the front of any list that starts with the symbols. -/
def Reads (read : StateT (List β) (Except ε) α) (symbols : List β) (a : α) : Prop :=
  ∀ rest, read.run (symbols ++ rest) = .ok (a, rest)

namespace Reads

variable {read : StateT (List β) (Except ε) α} {symbols symbols' : List β} {a : α}

theorem pure (a : α) : Reads (Pure.pure a : StateT (List β) (Except ε) α) [] a := fun _ => rfl

theorem bind {f : α → StateT (List β) (Except ε) γ} {c : γ} (h : Reads read symbols a)
    (h' : Reads (f a) symbols' c) : Reads (read >>= f) (symbols ++ symbols') c := by
  intro rest
  rw [StateT.run_bind, List.append_assoc, h]
  exact h' rest

theorem map {f : α → γ} (h : Reads read symbols a) : Reads (f <$> read) symbols (f a) := by
  intro rest
  rw [StateT.run_map, h]
  rfl

theorem of_append_nil (h : Reads read (symbols ++ []) a) : Reads read symbols a := by
  rwa [List.append_nil] at h

theorem bind_pure {f : α → γ} (h : Reads read symbols a) :
    Reads (read >>= fun b => Pure.pure (f b)) symbols (f a) :=
  of_append_nil (h.bind (pure (f a)))

end Reads

/-! ### Taking from the front -/

section Front

variable {read : StateT (List β) (Except ε) α} {input rest : List β} {a : α} {n : ℕ} {e : ε}

/-- The first symbols, or an error when they are missing. -/
def takeFront (e : ε) (n : ℕ) : StateT (List β) (Except ε) (List β) := fun rest =>
  if rest.length < n then .error e else .ok (rest.take n, rest.drop n)

/-- A check that takes nothing. -/
def checked (x : Except ε α) : StateT (List β) (Except ε) α := fun rest => x.map fun a => (a, rest)

/-- Several items. -/
def readItems (read : StateT (List β) (Except ε) α) : ℕ → StateT (List β) (Except ε) (List α)
  | 0 => pure []
  | n + 1 => do
    let item ← read
    let items ← readItems read n
    return item :: items

theorem bind_run_ok {f : α → StateT (List β) (Except ε) γ} {c : γ} :
    (read >>= f).run input = .ok (c, rest) ↔
      ∃ a middle, read.run input = .ok (a, middle) ∧ (f a).run middle = .ok (c, rest) := by
  rw [StateT.run_bind]
  cases hread : read.run input with
  | error e => exact iff_of_false (fun h => nomatch h) (by simp)
  | ok found =>
    obtain ⟨a, middle⟩ := found
    constructor
    · intro h
      exact ⟨a, middle, rfl, h⟩
    · rintro ⟨_, _, heq, h⟩
      cases heq
      exact h

theorem pure_run_ok {b : α} :
    (pure a : StateT (List β) (Except ε) α).run input = .ok (b, rest) ↔ a = b ∧ input = rest := by
  show Except.ok (a, input) = Except.ok (b, rest) ↔ _
  simp

@[simp] theorem takeFront_run_ok {value : List β} :
    (takeFront e n).run input = .ok (value, rest) ↔ value.length = n ∧ input = value ++ rest := by
  show (if input.length < n then Except.error e else .ok (input.take n, input.drop n)) = _ ↔ _
  split_ifs with hshort
  · simp only [false_iff, not_and]
    rintro rfl rfl
    simp at hshort
  · simp only [Except.ok.injEq, Prod.mk.injEq]
    constructor
    · rintro ⟨rfl, rfl⟩
      exact ⟨List.length_take_of_le (not_lt.1 hshort), (List.take_append_drop ..).symm⟩
    · rintro ⟨rfl, rfl⟩
      simp

@[simp] theorem checked_run_ok {x : Except ε α} :
    (checked x : StateT (List β) (Except ε) α).run input = .ok (a, rest) ↔ x = .ok a ∧ input = rest := by
  show x.map (fun a => (a, input)) = _ ↔ _
  cases x with
  | error e => simp [Except.map]
  | ok b => simp [Except.map]

theorem reads_takeFront {symbols : List β} (h : symbols.length = n) :
    Reads (takeFront e n) symbols symbols := by
  intro rest
  simp [h]

theorem reads_checked {x : Except ε α} (h : x = .ok a) :
    Reads (checked x : StateT (List β) (Except ε) α) [] a := by
  intro rest
  simp [h]

/-- Items are read back one behind the other. -/
theorem reads_readItems {encode : α → List β} {items : List α}
    (h : ∀ a ∈ items, Reads read (encode a) a) :
    Reads (readItems read items.length) (items.flatMap encode) items := by
  induction items with
  | nil => exact Reads.pure []
  | cons a items ih =>
    have hitems : Reads (do return a :: (← readItems read items.length))
        (items.flatMap encode ++ []) (a :: items) :=
      (ih fun b hb => h b (List.mem_cons_of_mem _ hb)).bind (Reads.pure (a :: items))
    rw [List.append_nil] at hitems
    exact (h a List.mem_cons_self).bind hitems

/-- Items that were read are encoded at the front, and each is as one item that was read. -/
theorem readItems_run_ok {encode : α → List β} {P : α → Prop} {items : List α}
    (hread : ∀ {input a rest}, read.run input = .ok (a, rest) → P a ∧ input = encode a ++ rest)
    (h : (readItems read n).run input = .ok (items, rest)) :
    items.length = n ∧ (∀ a ∈ items, P a) ∧ input = items.flatMap encode ++ rest := by
  induction n generalizing input items with
  | zero =>
    obtain ⟨rfl, rfl⟩ := pure_run_ok.1 h
    simp
  | succ n ih =>
    obtain ⟨item, middle, hitem, h⟩ := bind_run_ok.1 h
    obtain ⟨others, rest', hothers, h⟩ := bind_run_ok.1 h
    obtain ⟨rfl, rfl⟩ := pure_run_ok.1 h
    obtain ⟨hP, rfl⟩ := hread hitem
    obtain ⟨hlen, hall, rfl⟩ := ih hothers
    exact ⟨by simp [hlen], List.forall_mem_cons.2 ⟨hP, hall⟩, by simp⟩

end Front

/-! ### Big-endian numbers -/

theorem append_lt_append_of_lt [LinearOrder β] {xs ys xs' ys' : List β} (h : xs < ys)
    (hlen : xs.length = ys.length) : xs ++ xs' < ys ++ ys' := by
  induction xs generalizing ys with
  | nil =>
    rw [List.length_nil, eq_comm, List.length_eq_zero_iff] at hlen
    subst hlen
    exact absurd h (lt_irrefl _)
  | cons x xs ih =>
    cases ys with
    | nil => cases hlen
    | cons y ys =>
      rw [List.cons_append, List.cons_append, List.cons_lt_cons_iff]
      rw [List.cons_lt_cons_iff] at h
      rcases h with h | ⟨rfl, h⟩
      · exact .inl h
      · exact .inr ⟨rfl, ih h (Nat.succ.inj hlen)⟩

theorem leBytes_reverse_lt {w m n : ℕ} (h : m < n) (hn : n < 256 ^ w) :
    (leBytes w m).reverse < (leBytes w n).reverse := by
  induction w generalizing m n with
  | zero =>
    rw [pow_zero] at hn
    omega
  | succ w ih =>
    rw [leBytes, leBytes, List.reverse_cons, List.reverse_cons]
    by_cases hhigh : m / 256 < n / 256
    · refine append_lt_append_of_lt (ih hhigh ?_) (by simp)
      rw [pow_succ'] at hn
      exact Nat.div_lt_of_lt_mul hn
    · have heq : m / 256 = n / 256 := by omega
      have hlow : lowByte m < lowByte n := by
        show m % 256 < n % 256
        omega
      rw [heq]
      refine List.append_left_lt ?_
      rw [List.cons_lt_cons_iff]
      exact .inl hlow

end DbLab
