import DbLab.Experiment.Json
import DbLab.Lib.Hex

/-!
# Byte strings

`ByteString` is written as lowercase hexadecimal and read from hexadecimal of either case.
-/

namespace DbLab

open Hex

inductive ByteStringError
  | oddLength (length : ℕ)
  | invalidDigit (index : ℕ) (byte : Byte)
  deriving DecidableEq

namespace ByteString

/-- Source `from_hex`, of the bytes of a text. -/
def fromHex (encoded : Bytes) : Except ByteStringError Bytes :=
  if encoded.length % 2 ≠ 0 then .error (.oddLength encoded.length)
  else readPairs ByteStringError.invalidDigit 0 encoded

/-- The bytes of a text of ASCII characters. -/
def asciiBytes (text : String) : Bytes := text.toList.map fun c => lowByte c.toNat

theorem lowByte_digitChar (nibble : Fin 16) : lowByte (Nat.digitChar nibble).toNat = digit nibble := by
  revert nibble
  decide

theorem asciiBytes_toHex (bytes : Bytes) : asciiBytes (Experiment.toHex bytes) = encode bytes := by
  rw [asciiBytes, Experiment.toHex, String.toList_ofList]
  induction bytes with
  | nil => rfl
  | cons byte bytes ih =>
    have hhigh : lowByte (Nat.digitChar (byte.val / 16)).toNat = digit (high byte) := lowByte_digitChar (high byte)
    have hlow : lowByte (Nat.digitChar (byte.val % 16)).toNat = digit (low byte) := lowByte_digitChar (low byte)
    rw [List.flatMap_cons, List.map_append, ih, encode_cons, List.map_cons, List.map_cons, hhigh, hlow]
    rfl

/-- **The codec of byte strings.** What is written is read back, the accepted texts are the written ones up to the
case of the letters, and every other text is refused for its odd length or for the first byte that is no digit. -/
theorem hex_codec (bytes text : Bytes) :
    fromHex (asciiBytes (Experiment.toHex bytes)) = .ok bytes ∧
    (fromHex text = .ok bytes ↔ text.map lower = asciiBytes (Experiment.toHex bytes)) ∧
    (∀ length, fromHex text = .error (.oddLength length) ↔ length = text.length ∧ text.length % 2 = 1) ∧
    ∀ index byte, fromHex text = .error (.invalidDigit index byte) ↔ text.length % 2 = 0 ∧
      ∃ before, before.length = index ∧ FirstInvalid text before byte := by
  rw [asciiBytes_toHex]
  have hok : ∀ text, fromHex text = .ok bytes ↔ text.map lower = encode bytes := by
    intro text
    by_cases heven : text.length % 2 = 0
    · rw [fromHex, if_neg (not_not.2 heven), readPairs_eq_ok heven]
    · rw [fromHex, if_pos heven]
      refine iff_of_false (by simp) fun htext => heven ?_
      rw [← List.length_map lower, htext, encode_length, Nat.mul_mod_right]
  refine ⟨(hok _).2 lower_encode, hok text, fun length => ?_, fun index byte => ?_⟩
  · by_cases heven : text.length % 2 = 0
    · rw [fromHex, if_neg (not_not.2 heven), readPairs_eq_error heven]
      refine iff_of_false ?_ fun h => by omega
      rintro ⟨before, byte, -, ⟨⟩⟩
    · rw [fromHex, if_pos heven, Except.error.injEq, ByteStringError.oddLength.injEq, eq_comm]
      exact (and_iff_left (by omega)).symm
  · by_cases heven : text.length % 2 = 0
    · rw [fromHex, if_neg (not_not.2 heven), readPairs_eq_error heven]
      constructor
      · rintro ⟨before, byte, hinvalid, ⟨⟩⟩
        exact ⟨heven, before, (Nat.zero_add _).symm, hinvalid⟩
      · rintro ⟨-, before, rfl, hinvalid⟩
        exact ⟨before, byte, hinvalid, by rw [Nat.zero_add]⟩
    · rw [fromHex, if_pos heven]
      exact iff_of_false (by simp) fun h => heven h.1

end ByteString
end DbLab
