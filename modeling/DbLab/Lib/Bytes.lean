import Mathlib.Tactic
import Mathlib.Data.List.Lex
import Mathlib.Order.Fin.Basic

/-!
# Byte strings and little-endian integers

Byte strings are lists of `Fin 256`, ordered lexicographically. `leBytes w n` writes `n` on `w`
bytes, least significant first, and `leNat` reads a byte string back.
-/

namespace DbLab

/-- One octet. -/
abbrev Byte := Fin 256

instance instNeZeroByte : NeZero 256 := ⟨by decide⟩

/-- A byte string. -/
abbrev Bytes := List Byte

/-- The low byte of a number. -/
def lowByte (n : ℕ) : Byte := ⟨n % 256, Nat.mod_lt _ (by decide)⟩

@[simp] theorem lowByte_val (n : ℕ) : (lowByte n).val = n % 256 := rfl

/-- The `w` low bytes of `n`, least significant first. -/
def leBytes : ℕ → ℕ → Bytes
  | 0, _ => []
  | w + 1, n => lowByte n :: leBytes w (n / 256)

/-- The number whose bytes are given, least significant first. -/
def leNat : Bytes → ℕ
  | [] => 0
  | b :: bs => b.val + 256 * leNat bs

@[simp] theorem leBytes_length (w n : ℕ) : (leBytes w n).length = w := by
  induction w generalizing n with
  | zero => rfl
  | succ w ih => simp [leBytes, ih]

theorem leNat_leBytes_mod (w n : ℕ) : leNat (leBytes w n) = n % 256 ^ w := by
  induction w generalizing n with
  | zero => simp [leBytes, leNat, Nat.mod_one]
  | succ w ih =>
    simp only [leBytes, leNat, lowByte_val, ih]
    rw [pow_succ', Nat.mod_mul]

/-- A number that fits in `w` bytes is read back. -/
@[simp] theorem leNat_leBytes {w n : ℕ} (h : n < 256 ^ w) : leNat (leBytes w n) = n := by
  rw [leNat_leBytes_mod, Nat.mod_eq_of_lt h]

theorem leNat_lt (bs : Bytes) : leNat bs < 256 ^ bs.length := by
  induction bs with
  | nil => simp [leNat]
  | cons b bs ih =>
    have hb := b.isLt
    simp only [leNat, List.length_cons, pow_succ']
    omega

/-- Every byte string is the encoding of its value on its own length. -/
theorem leBytes_leNat (bs : Bytes) : leBytes bs.length (leNat bs) = bs := by
  induction bs with
  | nil => rfl
  | cons b bs ih =>
    have hb := b.isLt
    have hdiv : (b.val + 256 * leNat bs) / 256 = leNat bs := by omega
    simp only [leNat, List.length_cons, leBytes, hdiv, ih]
    congr 1
    ext
    simp only [lowByte_val]
    omega

theorem leBytes_injective {w m n : ℕ} (hm : m < 256 ^ w) (hn : n < 256 ^ w)
    (h : leBytes w m = leBytes w n) : m = n := by
  rw [← leNat_leBytes hm, ← leNat_leBytes hn, h]

end DbLab
