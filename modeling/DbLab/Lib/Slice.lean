import DbLab.Lib.Bytes

/-!
# Fields of a byte layout

`slice bs i n` are the `n` bytes of `bs` from `i` on, as far as they are present. A layout that is a
concatenation of fields is read field by field (`take_prefix_append`), also when the bytes end
inside it.
-/

namespace DbLab

variable {bs xs ys : Bytes} {i n m k : ℕ}

def slice (bs : Bytes) (i n : ℕ) : Bytes := (bs.drop i).take n

/-- The byte at a position that is present. -/
def byteAt (bs : Bytes) (i : ℕ) : ℕ := leNat (slice bs i 1)

theorem slice_length (h : i + n ≤ bs.length) : (slice bs i n).length = n := by
  simp only [slice, List.length_take, List.length_drop]
  omega

theorem slice_append_slice : slice bs i n ++ slice bs (i + n) m = slice bs i (n + m) := by
  rw [slice, slice, slice, List.take_add, List.drop_drop]

theorem slice_zero : slice bs 0 n = bs.take n := rfl

theorem take_append_slice : bs.take i ++ slice bs i n = bs.take (i + n) :=
  (List.take_add ..).symm

/-- A field that is present is the encoding of its value. -/
theorem slice_eq_leBytes (h : i + n ≤ bs.length) : slice bs i n = leBytes n (leNat (slice bs i n)) := by
  conv_lhs => rw [← leBytes_leNat (slice bs i n), slice_length h]

theorem slice_eq_singleton {b : Byte} (h : i + 1 ≤ bs.length) (hb : byteAt bs i = b.val) :
    slice bs i 1 = [b] := by
  have hone : leBytes 1 b.val = [b] := by
    have hlow : lowByte b.val = b := Fin.ext (Nat.mod_eq_of_lt b.isLt)
    rw [leBytes, leBytes, hlow]
  rw [slice_eq_leBytes h, show leNat (slice bs i 1) = b.val from hb, hone]

/-- A field inside a prefix is the same field of the whole. -/
theorem slice_take (h : i + n ≤ k) : slice (bs.take k) i n = slice bs i n := by
  rw [slice, slice, List.drop_take, List.take_take, min_eq_left (by omega)]

theorem slice_append_left (h : i + n ≤ xs.length) : slice (xs ++ ys) i n = slice xs i n := by
  rw [slice, slice, List.drop_append_of_le_length (by omega),
    List.take_append_of_le_length (by rw [List.length_drop]; omega)]

theorem slice_append_right (h : xs.length = i) : slice (xs ++ ys) (i + k) n = slice ys k n := by
  rw [slice, slice, ← h, List.drop_append, List.drop_eq_nil_of_le (by omega), List.nil_append]
  congr 2
  omega

/-- The first field of a layout. -/
theorem slice_append_self (h : xs.length = n) : slice (xs ++ ys) 0 n = xs := by
  rw [slice_append_left (by omega), slice, List.drop_zero, List.take_of_length_le h.le]

/-- The field between two others. -/
theorem slice_append_middle {zs : Bytes} (hx : xs.length = i) (hy : ys.length = n) :
    slice (xs ++ (ys ++ zs)) i n = ys := by
  have h := @slice_append_right xs (ys ++ zs) i n 0 hx
  rw [Nat.add_zero] at h
  rw [h]
  exact slice_append_self hy

/-- A field behind the first one. -/
theorem slice_skip (h : xs.length ≤ i) : slice (xs ++ ys) i n = slice ys (i - xs.length) n := by
  have hi : i = xs.length + (i - xs.length) := by omega
  rw [hi, slice_append_right rfl, Nat.add_sub_cancel_left]

theorem slice_self (h : xs.length = n) : slice xs 0 n = xs := by
  rw [slice, List.drop_zero, List.take_of_length_le h.le]

theorem leNat_append : leNat (xs ++ ys) = leNat xs + 256 ^ xs.length * leNat ys := by
  induction xs with
  | nil => simp [leNat]
  | cons b bs ih =>
    rw [List.cons_append, leNat, ih, leNat, List.length_cons, pow_succ']
    ring

/-- Bytes that start an encoded number do not exceed it. -/
theorem leNat_le_of_prefix (h : xs <+: ys) : leNat xs ≤ leNat ys := by
  obtain ⟨zs, rfl⟩ := h
  rw [leNat_append]
  exact Nat.le_add_right ..

/-- Bytes start the encoding of their own value on any larger width. -/
theorem prefix_leBytes (h : bs.length ≤ n) : bs <+: leBytes n (leNat bs) := by
  induction bs generalizing n with
  | nil => exact List.nil_prefix
  | cons b bs ih =>
    obtain ⟨n, rfl⟩ : ∃ k, n = k + 1 := ⟨n - 1, by simp only [List.length_cons] at h; omega⟩
    have hb := b.isLt
    have hlow : lowByte (b.val + 256 * leNat bs) = b := Fin.ext (by rw [lowByte_val]; omega)
    have hdiv : (b.val + 256 * leNat bs) / 256 = leNat bs := by omega
    rw [leNat, leBytes, hlow, hdiv]
    exact (List.prefix_cons_inj b).2 (ih (by simpa using h))

/-- Bytes that end inside a layout agree with it when they agree with each field. -/
theorem take_prefix_append (hx : xs.length = i) :
    bs.take (i + n) <+: xs ++ ys ↔ bs.take i <+: xs ∧ slice bs i n <+: ys := by
  rw [List.take_add, ← slice]
  by_cases h : bs.length ≤ i
  · have hnil : slice bs i n = [] := by rw [slice, List.drop_eq_nil_of_le h, List.take_nil]
    rw [hnil, List.append_nil, List.take_of_length_le h]
    constructor
    · intro hp
      exact ⟨List.prefix_of_prefix_length_le hp (List.prefix_append _ _) (by omega), List.nil_prefix⟩
    · rintro ⟨hp, -⟩
      exact hp.trans (List.prefix_append _ _)
  · have hlen : (bs.take i).length = xs.length := by rw [List.length_take]; omega
    constructor
    · intro hp
      have heq : bs.take i = xs :=
        (List.prefix_of_prefix_length_le ((List.prefix_append _ _).trans hp)
          (List.prefix_append _ _) hlen.le).eq_of_length hlen
      refine ⟨heq ▸ List.prefix_rfl, ?_⟩
      rw [heq] at hp
      exact (List.prefix_append_right_inj xs).1 hp
    · rintro ⟨hp, hq⟩
      rw [hp.eq_of_length hlen]
      exact (List.prefix_append_right_inj xs).2 hq

theorem slice_prefix_append (hx : xs.length = n) :
    slice bs i (n + m) <+: xs ++ ys ↔ slice bs i n <+: xs ∧ slice bs (i + n) m <+: ys := by
  have h : (bs.drop i).take (n + m) <+: xs ++ ys ↔ _ := take_prefix_append hx
  rwa [slice, List.drop_drop, ← slice, ← slice, ← slice] at h

/-- Two fields that are present. -/
theorem slice_eq_append_iff (hx : xs.length = n) (h : i + n ≤ bs.length) :
    slice bs i (n + m) = xs ++ ys ↔ slice bs i n = xs ∧ slice bs (i + n) m = ys := by
  rw [← slice_append_slice]
  constructor
  · intro he
    exact List.append_inj he ((slice_length h).trans hx.symm)
  · rintro ⟨h1, h2⟩
    rw [h1, h2]

theorem slice_eq_leBytes_iff {v : ℕ} (h : i + n ≤ bs.length) (hv : v < 256 ^ n) :
    slice bs i n = leBytes n v ↔ leNat (slice bs i n) = v := by
  constructor
  · intro he
    rw [he, leNat_leBytes hv]
  · intro he
    rw [slice_eq_leBytes h, he]

/-- A field that is present and starts an encoded number is that encoding. -/
theorem slice_prefix_leBytes {v : ℕ} (h : i + n ≤ bs.length) (hv : v < 256 ^ n) :
    slice bs i n <+: leBytes n v ↔ leNat (slice bs i n) = v := by
  constructor
  · intro hp
    rw [hp.eq_of_length (by rw [slice_length h, leBytes_length]), leNat_leBytes hv]
  · intro he
    rw [slice_eq_leBytes h, he]

theorem slice_prefix_singleton {b : Byte} :
    slice bs i 1 <+: [b] ↔ (i + 1 ≤ bs.length → byteAt bs i = b.val) := by
  by_cases h : i + 1 ≤ bs.length
  · constructor
    · intro hp _
      rw [byteAt, hp.eq_of_length (by rw [slice_length h]; rfl)]
      simp [leNat]
    · intro hb
      rw [slice_eq_singleton h (hb h)]
  · refine iff_of_true ?_ fun h' => absurd h' h
    rw [slice, List.drop_eq_nil_of_le (by omega)]
    exact List.nil_prefix

/-- The comparison of bytes with a field as far as both go. -/
theorem take_min_eq_iff :
    bs.take (min bs.length xs.length) = xs.take (min bs.length xs.length) ↔
      bs.take xs.length <+: xs := by
  rcases le_total bs.length xs.length with h | h
  · rw [min_eq_left h, List.take_of_length_le le_rfl, List.take_of_length_le h,
      List.prefix_iff_eq_take]
  · rw [min_eq_right h, List.take_of_length_le (l := xs) le_rfl]
    constructor
    · intro he
      rw [he]
    · intro hp
      exact hp.eq_of_length (by rw [List.length_take, min_eq_left h])

/-- A prefix and the fields behind it. -/
theorem prefix_append_iff (hx : xs.length = i) :
    bs <+: xs ++ ys ↔ bs.take i <+: xs ∧ bs.drop i <+: ys := by
  have h : bs.take (i + bs.length) <+: xs ++ ys ↔ _ := take_prefix_append hx
  have hall : bs.take (i + bs.length) = bs := List.take_of_length_le (by omega)
  have hrest : slice bs i bs.length = bs.drop i :=
    List.take_of_length_le (by rw [List.length_drop]; omega)
  rwa [hall, hrest] at h

/-! ### Writing a slice -/

/-- The bytes with `data` written from `i` on. -/
def setSlice (bs : Bytes) (i : ℕ) (data : Bytes) : Bytes := bs.take i ++ (data ++ bs.drop (i + data.length))

theorem setSlice_length {data : Bytes} (h : i + data.length ≤ bs.length) :
    (setSlice bs i data).length = bs.length := by
  rw [setSlice, List.length_append, List.length_append, List.length_take, List.length_drop]
  omega

/-- What is in front of a written slice and behind it stays. -/
theorem setSlice_append {zs data : Bytes} (hx : xs.length = i) (hy : ys.length = data.length) :
    setSlice (xs ++ (ys ++ zs)) i data = xs ++ (data ++ zs) := by
  have hdrop : (xs ++ (ys ++ zs)).drop (i + data.length) = zs := by
    rw [← List.append_assoc]
    exact List.drop_left' (by rw [List.length_append, hx, hy])
  rw [setSlice, List.take_left' hx, hdrop]

/-! ### Images at an offset -/

/-- The bytes have `xs` at an offset. -/
def HoldsAt (bs : Bytes) (offset : ℕ) (xs : Bytes) : Prop := slice bs offset xs.length = xs

section HoldsAt

variable {bs xs ys : Bytes} {offset i n : ℕ}

theorem HoldsAt.slice_eq (h : HoldsAt bs offset xs) (hin : i + n ≤ xs.length) :
    slice bs (offset + i) n = slice xs i n := by
  have hwhole : slice xs i n = slice (slice bs offset xs.length) i n := by rw [h]
  rw [hwhole]
  simp only [slice, List.drop_take, List.drop_drop, List.take_take]
  rw [min_eq_left (by omega)]

theorem HoldsAt.length_le (h : HoldsAt bs offset xs) (hne : 0 < xs.length) : offset + xs.length ≤ bs.length := by
  have hlength : (slice bs offset xs.length).length = xs.length := congrArg List.length h
  simp only [slice, List.length_take, List.length_drop] at hlength
  omega

theorem holdsAt_append :
    HoldsAt bs offset (xs ++ ys) ↔ HoldsAt bs offset xs ∧ HoldsAt bs (offset + xs.length) ys := by
  constructor
  · intro h
    constructor
    · have hfront := h.slice_eq (i := 0) (n := xs.length) (by simp)
      rw [Nat.add_zero] at hfront
      exact hfront.trans (slice_append_self rfl)
    · have hback := h.slice_eq (i := xs.length) (n := ys.length) (by simp)
      exact hback.trans ((slice_skip le_rfl).trans (by rw [Nat.sub_self]; exact slice_self rfl))
  · rintro ⟨hx, hy⟩
    rw [HoldsAt, List.length_append, ← slice_append_slice, hx, hy]

theorem holdsAt_append_right (h : xs.length = offset) : HoldsAt (xs ++ ys) offset ys := by
  rw [HoldsAt, slice_skip h.le, h, Nat.sub_self]
  exact slice_self rfl

/-- What stands in the front part stands in the whole. -/
theorem HoldsAt.append (h : HoldsAt bs offset xs) (hne : 0 < xs.length) : HoldsAt (bs ++ ys) offset xs := by
  have hle := h.length_le hne
  exact (slice_append_left hle).trans h

end HoldsAt

end DbLab
