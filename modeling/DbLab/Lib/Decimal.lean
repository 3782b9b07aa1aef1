import Mathlib.Tactic

/-!
# Decimal numerals of a fixed width

The digits of a number, filled up with zeros to a width, and the number that digits stand for.
-/

namespace DbLab

def digitChar (d : ℕ) : Char := Char.ofNat (48 + d)

def charDigit (c : Char) : ℕ := c.toNat - 48

def isAsciiDigit (c : Char) : Bool := 48 ≤ c.toNat && c.toNat ≤ 57

/-- The last `width` decimal digits of a number. -/
def decPad : ℕ → ℕ → List Char
  | 0, _ => []
  | width + 1, n => decPad width (n / 10) ++ [digitChar (n % 10)]

/-- The number that digits stand for. -/
def decValue (cs : List Char) : ℕ := cs.foldl (fun n c => 10 * n + charDigit c) 0

theorem toNat_digitChar {d : ℕ} (hd : d < 10) : (digitChar d).toNat = 48 + d := by
  have hvalid : (48 + d).isValidChar := .inl (by omega)
  rw [digitChar, Char.ofNat, dif_pos hvalid]
  exact UInt32.toNat_ofNatLT

theorem charDigit_digitChar {d : ℕ} (hd : d < 10) : charDigit (digitChar d) = d := by
  rw [charDigit, toNat_digitChar hd]
  omega

theorem isAsciiDigit_digitChar {d : ℕ} (hd : d < 10) : isAsciiDigit (digitChar d) = true := by
  rw [isAsciiDigit, toNat_digitChar hd]
  simp
  omega

theorem charDigit_lt {c : Char} (hc : isAsciiDigit c = true) : charDigit c < 10 := by
  simp only [isAsciiDigit, Bool.and_eq_true, decide_eq_true_eq] at hc
  rw [charDigit]
  omega

theorem digitChar_charDigit {c : Char} (hc : isAsciiDigit c = true) : digitChar (charDigit c) = c := by
  simp only [isAsciiDigit, Bool.and_eq_true, decide_eq_true_eq] at hc
  rw [digitChar, charDigit, Nat.add_sub_cancel' hc.1, Char.ofNat_toNat]

theorem decPad_length (width n : ℕ) : (decPad width n).length = width := by
  induction width generalizing n with
  | zero => rfl
  | succ width ih => rw [decPad, List.length_append, ih, List.length_singleton]

theorem decPad_digits (width n : ℕ) : ∀ c ∈ decPad width n, isAsciiDigit c = true := by
  induction width generalizing n with
  | zero => simp [decPad]
  | succ width ih =>
    intro c hc
    rw [decPad, List.mem_append, List.mem_singleton] at hc
    rcases hc with hc | rfl
    · exact ih _ c hc
    · exact isAsciiDigit_digitChar (Nat.mod_lt _ (by decide))

theorem decValue_concat (cs : List Char) (c : Char) :
    decValue (cs ++ [c]) = 10 * decValue cs + charDigit c := by
  rw [decValue, List.foldl_append]
  rfl

theorem decValue_decPad {width n : ℕ} (h : n < 10 ^ width) : decValue (decPad width n) = n := by
  induction width generalizing n with
  | zero =>
    rw [pow_zero, Nat.lt_one_iff] at h
    rw [h]
    rfl
  | succ width ih =>
    rw [decPad, decValue_concat, charDigit_digitChar (Nat.mod_lt _ (by decide)), ih]
    · omega
    · rw [pow_succ'] at h
      omega

theorem decPad_decValue {cs : List Char} (h : ∀ c ∈ cs, isAsciiDigit c = true) :
    decPad cs.length (decValue cs) = cs := by
  induction cs using List.reverseRecOn with
  | nil => rfl
  | append_singleton cs c ih =>
    have hc := h c (List.mem_append_right _ (List.mem_singleton_self c))
    have hlt := charDigit_lt hc
    rw [List.length_append, List.length_singleton, decPad, decValue_concat]
    have hdiv : (10 * decValue cs + charDigit c) / 10 = decValue cs := by omega
    have hmod : (10 * decValue cs + charDigit c) % 10 = charDigit c := by omega
    rw [hdiv, hmod, ih fun d hd => h d (List.mem_append_left _ hd), digitChar_charDigit hc]

end DbLab
