import DbLab.Lib.Crc32

/-!
# The table of the CRC-32

A shift of the register is linear in exclusive or. So eight shifts of a register move its upper bits down
and add what they make of its low byte, and a table of 256 registers has these.
-/

namespace DbLab

variable {a b c : BitVec 32} {i k n : ℕ}

theorem xor_xor_xor_cancel : a ^^^ c ^^^ (b ^^^ c) = a ^^^ b := by
  rw [BitVec.xor_assoc, ← BitVec.xor_assoc c, BitVec.xor_comm c, BitVec.xor_assoc b, BitVec.xor_self,
    BitVec.xor_zero]

/-- **A shift is linear.** -/
theorem crcBit_xor : crcBit (a ^^^ b) = crcBit a ^^^ crcBit b := by
  unfold crcBit
  rw [BitVec.getLsbD_xor, BitVec.ushiftRight_xor_distrib]
  cases a.getLsbD 0 with
  | false =>
    cases b.getLsbD 0 with
    | false => simp
    | true => simp [BitVec.xor_assoc]
  | true =>
    cases b.getLsbD 0 with
    | false =>
      simp only [Bool.true_xor, Bool.not_false, if_true, Bool.false_eq_true, if_false]
      rw [BitVec.xor_assoc, BitVec.xor_comm (b >>> 1), BitVec.xor_assoc]
    | true =>
      simp only [Bool.true_xor, Bool.not_true, if_true, Bool.false_eq_true, if_false]
      exact xor_xor_xor_cancel.symm

theorem crcBit_iterate_xor : crcBit^[n] (a ^^^ b) = crcBit^[n] a ^^^ crcBit^[n] b := by
  induction n generalizing a b with
  | zero => rfl
  | succ n ih => rw [Function.iterate_succ_apply, crcBit_xor, ih, ← Function.iterate_succ_apply,
      ← Function.iterate_succ_apply]

/-- A register whose low bits are clear only moves down. -/
theorem crcBit_iterate_clear (h : ∀ i < n, c.getLsbD i = false) : crcBit^[n] c = c >>> n := by
  induction n generalizing c with
  | zero => simp
  | succ n ih =>
    have hbit : crcBit c = c >>> 1 := by
      rw [crcBit, if_neg]
      rw [h 0 (Nat.succ_pos n)]
      exact Bool.false_ne_true
    rw [Function.iterate_succ_apply, hbit, ih, ← BitVec.shiftRight_add, Nat.add_comm]
    intro i hi
    rw [BitVec.getLsbD_ushiftRight]
    exact h (1 + i) (by omega)

theorem getLsbD_low (i : ℕ) : (0xff#32).getLsbD i = decide (i < 8) := by
  rw [BitVec.getLsbD_ofNat, show 0xff = 2 ^ 8 - 1 from rfl, Nat.testBit_two_pow_sub_one]
  by_cases h : i < 8
  · simp [h, show i < 32 by omega]
  · simp [h]

theorem xor_low_high : (c &&& 0xff#32) ^^^ (c &&& ~~~(0xff#32)) = c := by
  apply BitVec.eq_of_getLsbD_eq
  intro i hi
  rw [BitVec.getLsbD_xor, BitVec.getLsbD_and, BitVec.getLsbD_and, BitVec.getLsbD_not, getLsbD_low]
  by_cases h : i < 8
  · simp [h]
  · simp [h, hi]

/-- **Eight shifts** move the upper bits down and add what they make of the low byte. -/
theorem crcBit_iterate_eight : crcBit^[8] c = (c >>> 8) ^^^ crcBit^[8] (c &&& 0xff#32) := by
  have hclear : ∀ i < 8, (c &&& ~~~(0xff#32)).getLsbD i = false := by
    intro i hi
    rw [BitVec.getLsbD_and, BitVec.getLsbD_not, getLsbD_low]
    simp [hi]
  have hhigh : (c &&& ~~~(0xff#32)) >>> 8 = c >>> 8 := by
    apply BitVec.eq_of_getLsbD_eq
    intro i hi
    rw [BitVec.getLsbD_ushiftRight, BitVec.getLsbD_ushiftRight, BitVec.getLsbD_and, BitVec.getLsbD_not, getLsbD_low]
    by_cases h : 8 + i < 32
    · simp [h]
    · simp [h, BitVec.getLsbD_of_ge c (8 + i) (by omega)]
  conv_lhs => rw [← @xor_low_high c]
  rw [crcBit_iterate_xor, crcBit_iterate_clear hclear, hhigh, BitVec.xor_comm]

/-- The low bits of a byte do not reach the upper bits of the register. -/
theorem shift_xor_byte (byte : Byte) : (c ^^^ BitVec.ofNat 32 byte.val) >>> 8 = c >>> 8 := by
  have hbyte : BitVec.ofNat 32 byte.val >>> 8 = 0#32 := by
    apply BitVec.eq_of_toNat_eq
    have := byte.isLt
    rw [BitVec.toNat_ushiftRight, BitVec.toNat_ofNat, Nat.shiftRight_eq_div_pow]
    simp only [BitVec.toNat_ofNat]
    omega
  rw [BitVec.ushiftRight_xor_distrib, hbyte, BitVec.xor_zero]

/-- **One more byte**, from the register of its low byte. -/
theorem crcByte_eq (byte : Byte) :
    crcByte c byte = (c >>> 8) ^^^ crcBit^[8] ((c ^^^ BitVec.ofNat 32 byte.val) &&& 0xff#32) := by
  rw [crcByte, crcBit_iterate_eight, shift_xor_byte]

end DbLab
