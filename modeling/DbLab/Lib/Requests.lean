import DbLab.Lib.Laid
import DbLab.Lib.Safe

/-!
# Parsers and what they ask for

A parser that can panic, and that asks for capacities on its way. `Covers` says that it does what a
computation in `Except` says: it ends with the same value or the same error, it does not panic, and asks for
nothing beyond a bound. The rules follow the text of the parser; an access to the bytes is covered where it lies
inside them.
-/

namespace DbLab

/-- A run of a parser: its result, and the capacities that it has asked for. -/
structure Parse (ε α : Type) where
  result : Panicking ε α
  asked : List ℕ

namespace Parse

variable {ε α β κ : Type}

instance : Monad (Parse ε) where
  pure a := ⟨pure a, []⟩
  bind x f :=
    match x.result.run with
    | none => ⟨orPanic none, x.asked⟩
    | some (.error e) => ⟨ofResult (.error e), x.asked⟩
    | some (.ok a) => ⟨(f a).result, x.asked ++ (f a).asked⟩

/-- A computation that asks for nothing. -/
def lift (x : Panicking ε α) : Parse ε α := ⟨x, []⟩

/-- A computation that does not panic either. -/
def ofExcept (x : Except ε α) : Parse ε α := lift (ofResult x)

/-- A collection with room for a number of items. -/
def withCapacity (n : ℕ) : Parse ε Unit := ⟨pure (), [n]⟩

/-- The value of an option that must not be missing. -/
def expect (o : Option α) : Parse ε α := lift (orPanic o)

/-- The bytes from an index to another. -/
def sub (bytes : Bytes) (start stop : ℕ) : Parse ε Bytes := lift (sliceAt bytes start stop)

/-- The number in some bytes. -/
def num (bytes : Bytes) (start n : ℕ) : Parse ε ℕ := lift (readAt bytes start n)

/-- A copy of the bytes from an index to another. -/
def copy (bytes : Bytes) (start stop : ℕ) : Parse ε Bytes := do
  let part ← sub bytes start stop
  withCapacity part.length
  pure part

/-- A loop that reads items one behind the other up to a limit, and wants their keys to increase; each of
them takes one unit of fuel. -/
def readSorted [LinearOrder κ] (key : α → κ) (decode : ℕ → Parse ε (α × ℕ)) (unsorted : ℕ → ε) (limit : ℕ) :
    ℕ → ℕ → Option κ → Parse ε (List α × ℕ)
  | 0, offset, _ => if offset < limit then expect none else pure ([], offset)
  | fuel + 1, offset, previous =>
    if offset < limit then do
      let read ← decode offset
      if previous.any fun last => key read.1 ≤ last then ofExcept (.error (unsorted offset))
      else do
        let rest ← readSorted key decode unsorted limit fuel read.2 (some (key read.1))
        pure (read.1 :: rest.1, rest.2)
    else pure ([], offset)

/-- What is asked of a parser: it does not panic, its errors are of a kind, and no request is over a bound. -/
structure Bounded (P : ε → Prop) (bound : ℕ) (m : Parse ε α) : Prop where
  ends : m.result.run ≠ none
  reports : ∀ e, m.result.run = some (.error e) → P e
  asked : ∀ n ∈ m.asked, n ≤ bound

/-- The parser does what the computation says. -/
structure Covers (P : ε → Prop) (bound : ℕ) (m : Parse ε α) (x : Except ε α) : Prop where
  result : m.result = ofResult x
  asked : ∀ n ∈ m.asked, n ≤ bound
  reports : ∀ e, x = .error e → P e

variable {P : ε → Prop} {bound start stop n limit offset fuel : ℕ} {bytes : Bytes} {m : Parse ε α} {x : Except ε α}
  {y : Except ε β} {e : ε} {a : α}

theorem Covers.bounded (h : Covers P bound m x) : m.Bounded P bound := by
  refine ⟨?_, fun e he => ?_, h.asked⟩
  · rw [h.result]
    rintro ⟨⟩
  · rw [h.result] at he
    exact h.reports e (Option.some.inj he)

/-! ### What a composition asks for -/

theorem ok_bind {f : α → Parse ε β} {asked : List ℕ} :
    ((⟨ofResult (.ok a), asked⟩ : Parse ε α) >>= f) = ⟨(f a).result, asked ++ (f a).asked⟩ := rfl

theorem mem_asked_bind {f : α → Parse ε β} (h : Covers P bound m (.ok a)) (hn : n ∈ (f a).asked) :
    n ∈ (m >>= f).asked := by
  obtain ⟨result, asked⟩ := m
  obtain rfl : result = ofResult (.ok a) := h.result
  rw [ok_bind]
  exact List.mem_append_right _ hn

theorem mem_asked_withCapacity {f : Unit → Parse ε β} : n ∈ (withCapacity n >>= f).asked := List.mem_cons_self

/-! ### Rules -/

theorem Covers.pure (a : α) : Covers P bound (Pure.pure a) (.ok a) := ⟨rfl, by rintro n ⟨⟩, by rintro e ⟨⟩⟩

theorem Covers.ofExcept (h : ∀ e, x = .error e → P e) : Covers P bound (Parse.ofExcept x) x :=
  ⟨rfl, by rintro n ⟨⟩, h⟩

theorem Covers.bind {f : α → Parse ε β} {g : α → Except ε β} (h : Covers P bound m x)
    (hf : ∀ a, x = .ok a → Covers P bound (f a) (g a)) : Covers P bound (m >>= f) (x >>= g) := by
  obtain ⟨result, asked⟩ := m
  obtain ⟨hresult, hasked, hreports⟩ := h
  dsimp only at hresult hasked
  subst hresult
  cases x with
  | error e =>
    refine ⟨rfl, hasked, ?_⟩
    rintro e' ⟨⟩
    exact hreports e rfl
  | ok a =>
    obtain ⟨hfresult, hfasked, hfreports⟩ := hf a rfl
    rw [ok_bind]
    refine ⟨hfresult, fun n hn => ?_, hfreports⟩
    rcases List.mem_append.1 hn with hn | hn
    · exact hasked n hn
    · exact hfasked n hn

/-- A step that the computation does not show. -/
theorem Covers.step {f : α → Parse ε β} (h : Covers P bound m (.ok a)) (hf : Covers P bound (f a) y) :
    Covers P bound (m >>= f) y :=
  h.bind (g := fun _ => y) (by rintro _ ⟨⟩; exact hf)

theorem covers_lift {p : Panicking ε α} (h : p = ofResult (.ok a)) : Covers P bound (lift p) (.ok a) :=
  ⟨h, by rintro n ⟨⟩, by rintro e ⟨⟩⟩

theorem covers_expect {o : Option α} (h : o = some a) : Covers P bound (expect o) (.ok a) := by
  subst h
  exact covers_lift rfl

theorem covers_sub (h : stop = start + n) (hle : stop ≤ bytes.length) :
    Covers P bound (sub bytes start stop) (.ok (slice bytes start n)) := by
  subst h
  refine covers_lift ?_
  rw [sliceAt_eq (Nat.le_add_right start n) hle, Nat.add_sub_cancel_left]

theorem covers_num (h : start + n ≤ bytes.length) :
    Covers P bound (num bytes start n) (.ok (leNat (slice bytes start n))) :=
  covers_lift (readAt_eq h)

theorem covers_withCapacity (h : n ≤ bound) : Covers P bound (withCapacity n) (.ok ()) :=
  ⟨rfl, fun _ hk => (List.mem_singleton.1 hk).trans_le h, by rintro e ⟨⟩⟩

theorem covers_copy (h : stop = start + n) (hle : stop ≤ bytes.length) (hbound : n ≤ bound) :
    Covers P bound (copy bytes start stop) (.ok (slice bytes start n)) := by
  have hlen : (slice bytes start n).length ≤ bound := (slice_length (h ▸ hle)).trans_le hbound
  exact (covers_sub h hle).step ((covers_withCapacity hlen).step (.pure _))

/-- **A loop that reads items** reads them as the computation does, when its fuel is enough. -/
theorem covers_readSorted [LinearOrder κ] {key : α → κ} {read : ℕ → Parse ε (α × ℕ)} {decode : ℕ → Except ε (α × ℕ)}
    {progress : ∀ offset a next, decode offset = .ok (a, next) → offset < next} {unsorted : ℕ → ε} {previous : Option κ}
    (hread : ∀ offset, Covers P bound (read offset) (decode offset)) (hunsorted : ∀ offset, P (unsorted offset))
    (hfuel : limit - offset ≤ fuel) :
    Covers P bound (readSorted key read unsorted limit fuel offset previous)
      (DbLab.readSorted key decode progress unsorted limit offset previous) := by
  induction fuel generalizing offset previous with
  | zero =>
    rw [DbLab.readSorted, readSorted, if_neg (by omega), if_neg (by omega)]
    exact .pure _
  | succ fuel ih =>
    rw [readSorted, readSorted_eq_bind]
    split_ifs with hlt
    · refine (hread offset).bind fun a ha => ?_
      split_ifs with hfollows
      · exact .ofExcept (by rintro _ ⟨⟩; exact hunsorted offset)
      · have hnext := progress offset a.1 a.2 ha
        refine (ih (by omega)).bind fun rest _ => ?_
        exact .pure _
    · exact .pure _

end Parse
end DbLab
