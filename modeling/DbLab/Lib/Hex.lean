import DbLab.Lib.Checked
import DbLab.Lib.Bytes

/-!
# Hexadecimal texts

A byte is written as two digits, and a reader takes digits of either case, two at a time. It accepts exactly the texts
that are written ones up to the case of the letters, and it fails at the first byte that is no digit. A text stands here
as its bytes, and the errors of the reader are a parameter.
-/

namespace DbLab.Hex

/-- The digits `0123456789abcdef`. -/
def digit (nibble : Fin 16) : Byte := if nibble.val < 10 then ⟨48 + nibble, by omega⟩ else ⟨87 + nibble, by omega⟩

def high (byte : Byte) : Fin 16 := ⟨byte / 16, by omega⟩

def low (byte : Byte) : Fin 16 := ⟨byte % 16, by omega⟩

/-- Two digits for every byte. -/
def encode (bytes : Bytes) : Bytes := bytes.flatMap fun byte => [digit (high byte), digit (low byte)]

/-- The value of a digit in either case. -/
def decodeNibble (byte : Byte) : Option (Fin 16) :=
  if h : 48 ≤ byte.val ∧ byte.val ≤ 57 then some ⟨byte - 48, by omega⟩
  else if h : 97 ≤ byte.val ∧ byte.val ≤ 102 then some ⟨byte - 97 + 10, by omega⟩
  else if h : 65 ≤ byte.val ∧ byte.val ≤ 70 then some ⟨byte - 65 + 10, by omega⟩
  else none

def join (high low : Fin 16) : Byte := ⟨high * 16 + low, by omega⟩

/-- A letter of a digit in lower case. -/
def lower (byte : Byte) : Byte := if h : 65 ≤ byte.val ∧ byte.val ≤ 70 then ⟨byte + 32, by omega⟩ else byte

variable {ε : Type} {invalid : ℕ → Byte → ε}

/-- A digit of the text, at its index. -/
def readDigit (invalid : ℕ → Byte → ε) (index : ℕ) (byte : Byte) : Except ε (Fin 16) :=
  match decodeNibble byte with
  | some nibble => .ok nibble
  | none => .error (invalid index byte)

/-- The loop over the pairs from an index on. -/
def readPairs (invalid : ℕ → Byte → ε) : ℕ → Bytes → Except ε Bytes
  | index, first :: second :: rest => do
    let high ← readDigit invalid index first
    let low ← readDigit invalid (index + 1) second
    let bytes ← readPairs invalid (index + 2) rest
    .ok (join high low :: bytes)
  | _, _ => .ok []

variable {byte first second : Byte} {nibble high' low' : Fin 16} {bytes text rest : Bytes} {index k : ℕ} {err : ε}

/-! ### Digits -/

theorem decodeNibble_eq_some : decodeNibble byte = some nibble ↔ lower byte = digit nibble := by
  revert byte nibble
  decide +kernel

theorem lower_digit : lower (digit nibble) = digit nibble := by
  revert nibble
  decide

theorem join_eq : join high' low' = byte ↔ high' = high byte ∧ low' = low byte := by
  simp only [join, high, low, Fin.ext_iff]
  omega

theorem readDigit_eq_ok : readDigit invalid index byte = .ok nibble ↔ lower byte = digit nibble := by
  rw [← decodeNibble_eq_some, readDigit]
  cases decodeNibble byte with
  | none => simp
  | some found => simp

theorem readDigit_eq_error : readDigit invalid index byte = .error err ↔
    decodeNibble byte = none ∧ err = invalid index byte := by
  rw [readDigit]
  cases decodeNibble byte with
  | none => simp [eq_comm]
  | some found => simp

/-! ### Texts -/

@[simp] theorem encode_nil : encode [] = [] := rfl

@[simp] theorem encode_cons : encode (byte :: bytes) = digit (high byte) :: digit (low byte) :: encode bytes := rfl

theorem encode_length : (encode bytes).length = 2 * bytes.length := by
  induction bytes with
  | nil => rfl
  | cons byte bytes ih =>
    rw [encode_cons, List.length_cons, List.length_cons, List.length_cons, ih]
    omega

theorem lower_encode : (encode bytes).map lower = encode bytes := by
  induction bytes with
  | nil => rfl
  | cons byte bytes ih => rw [encode_cons, List.map_cons, List.map_cons, lower_digit, lower_digit, ih]

/-- One byte alone would make the length odd. -/
theorem eq_nil_of_no_pair (heven : text.length % 2 = 0)
    (hpairs : ∀ first second rest, text = first :: second :: rest → False) : text = [] := by
  rcases text with _ | ⟨first, _ | ⟨second, rest⟩⟩
  · rfl
  · cases heven
  · exact (hpairs first second rest rfl).elim

theorem readPairs_eq_ok (heven : text.length % 2 = 0) :
    readPairs invalid index text = .ok bytes ↔ text.map lower = encode bytes := by
  induction index, text using readPairs.induct generalizing bytes with
  | case1 index first second rest ih =>
    have hrest : rest.length % 2 = 0 := by
      simp only [List.length_cons] at heven
      omega
    simp only [readPairs, Checked.bind_eq_ok, readDigit_eq_ok, ih hrest, Except.ok.injEq]
    constructor
    · rintro ⟨hi, hfirst, lo, hsecond, left, hleft, rfl⟩
      obtain ⟨hhigh, hlow⟩ := join_eq.1 (rfl : join hi lo = join hi lo)
      rw [encode_cons, List.map_cons, List.map_cons, hfirst, hsecond, hleft, ← hhigh, ← hlow]
    · intro htext
      cases bytes with
      | nil => cases htext
      | cons byte bytes =>
        rw [encode_cons, List.map_cons, List.map_cons, List.cons.injEq, List.cons.injEq] at htext
        obtain ⟨hfirst, hsecond, hleft⟩ := htext
        exact ⟨high byte, hfirst, low byte, hsecond, bytes, hleft, congrArg (· :: bytes) (join_eq.2 ⟨rfl, rfl⟩)⟩
  | case2 text index hpairs =>
    obtain rfl := eq_nil_of_no_pair heven hpairs
    cases bytes with
    | nil => simp [readPairs]
    | cons byte bytes => simp [readPairs]

theorem encode_injective : Function.Injective encode := by
  intro bytes others h
  have hread : ∀ bytes, readPairs (fun _ _ => ()) 0 (encode bytes) = .ok bytes := fun bytes =>
    (readPairs_eq_ok (by rw [encode_length, Nat.mul_mod_right])).2 lower_encode
  have hothers := hread others
  rw [← h, hread bytes, Except.ok.injEq] at hothers
  exact hothers

/-- A byte that is no digit, the first one of the text, stands behind these. -/
structure FirstInvalid (text before : Bytes) (byte : Byte) : Prop where
  starts : before ++ [byte] <+: text
  digits : ∀ digit ∈ before, decodeNibble digit ≠ none
  invalid : decodeNibble byte = none

theorem firstInvalid_cons {before : Bytes} {first byte : Byte} : FirstInvalid (first :: rest) before byte ↔
    (before = [] ∧ byte = first ∧ decodeNibble first = none) ∨
      ∃ left, before = first :: left ∧ decodeNibble first ≠ none ∧ FirstInvalid rest left byte := by
  cases before with
  | nil =>
    constructor
    · rintro ⟨hstarts, -, hinvalid⟩
      obtain rfl := (List.cons_prefix_cons.1 hstarts).1
      exact .inl ⟨rfl, rfl, hinvalid⟩
    · rintro (⟨-, rfl, hinvalid⟩ | ⟨left, ⟨⟩, -⟩)
      exact ⟨by simp, by simp, hinvalid⟩
  | cons digit before =>
    constructor
    · rintro ⟨hstarts, hdigits, hinvalid⟩
      obtain ⟨rfl, hrest⟩ := List.cons_prefix_cons.1 hstarts
      rw [List.forall_mem_cons] at hdigits
      exact .inr ⟨before, rfl, hdigits.1, hrest, hdigits.2, hinvalid⟩
    · rintro (⟨⟨⟩, -⟩ | ⟨left, ⟨⟩, hdigit, hstarts, hdigits, hinvalid⟩)
      exact ⟨List.cons_prefix_cons.2 ⟨rfl, hstarts⟩, List.forall_mem_cons.2 ⟨hdigit, hdigits⟩, hinvalid⟩

/-- The first byte that is no digit is the next one, or it is in the rest. -/
theorem readDigit_bind_eq_error {f : Fin 16 → Except ε Bytes} {first : Byte}
    (h : ∀ nibble, f nibble = .error err ↔
      ∃ before byte, FirstInvalid rest before byte ∧ err = invalid (index + 1 + before.length) byte) :
    (readDigit invalid index first >>= f) = .error err ↔
      ∃ before byte, FirstInvalid (first :: rest) before byte ∧ err = invalid (index + before.length) byte := by
  cases hfirst : decodeNibble first with
  | none =>
    rw [readDigit_eq_error.2 ⟨hfirst, rfl⟩, Checked.error_bind]
    constructor
    · rintro ⟨⟩
      exact ⟨[], first, firstInvalid_cons.2 (.inl ⟨rfl, rfl, hfirst⟩), rfl⟩
    · rintro ⟨before, byte, hinvalid, rfl⟩
      rcases firstInvalid_cons.1 hinvalid with ⟨rfl, rfl, -⟩ | ⟨left, -, hdigit, -⟩
      · rfl
      · exact absurd hfirst hdigit
  | some nibble =>
    rw [readDigit_eq_ok.2 (decodeNibble_eq_some.1 hfirst), Checked.ok_bind, h]
    constructor
    · rintro ⟨before, byte, hinvalid, rfl⟩
      refine ⟨first :: before, byte, firstInvalid_cons.2 (.inr ⟨before, rfl, by simp [hfirst], hinvalid⟩), ?_⟩
      rw [List.length_cons, Nat.add_right_comm, Nat.add_assoc]
    · rintro ⟨before, byte, hinvalid, rfl⟩
      rcases firstInvalid_cons.1 hinvalid with ⟨-, -, hnone⟩ | ⟨left, rfl, -, hinvalid⟩
      · rw [hfirst] at hnone
        cases hnone
      · refine ⟨left, byte, hinvalid, ?_⟩
        rw [List.length_cons, Nat.add_right_comm, Nat.add_assoc]

theorem readPairs_eq_error (heven : text.length % 2 = 0) :
    readPairs invalid index text = .error err ↔
      ∃ before byte, FirstInvalid text before byte ∧ err = invalid (index + before.length) byte := by
  induction index, text using readPairs.induct with
  | case1 index first second rest ih =>
    have hrest : rest.length % 2 = 0 := by
      simp only [List.length_cons] at heven
      omega
    refine readDigit_bind_eq_error fun hi => readDigit_bind_eq_error fun lo => ?_
    rw [← ih hrest]
    cases readPairs invalid (index + 2) rest with
    | error e => simp
    | ok left => simp
  | case2 text index hpairs =>
    obtain rfl := eq_nil_of_no_pair heven hpairs
    simp only [readPairs, reduceCtorEq, false_iff]
    rintro ⟨before, byte, ⟨hstarts, -⟩, -⟩
    simpa using List.prefix_nil.1 hstarts

end DbLab.Hex
