import DbLab.Lib.Bytes
import DbLab.Lib.Checked

/-!
# Limits and errors common to the engines

The key and value limits of the key-value engines and the errors of the engines whose files are
modelled as bytes.
-/

namespace DbLab

/-- One past the largest `u64`. -/
def u64Limit : ℕ := 2 ^ 64

theorem u64Limit_eq : u64Limit = 18446744073709551616 := rfl

attribute [irreducible] u64Limit

def maxKeyBytes : ℕ := 4096

def maxValueBytes : ℕ := 1048576

/-- Source `DbError`. -/
inductive DbError
  | invalidInput (reason : String)
  | io (reason : String)
  | corruption (offset : ℕ) (reason : String)
  | unsupportedVersion (format : String) (found supported : ℕ)
  | poisoned
  deriving DecidableEq, Repr

/-- Source `ErrorClass`. -/
inductive ErrorClass
  | invalidInput | io | corruption | unsupportedVersion | poisoned
  deriving DecidableEq, Repr

/-- Source `class`. -/
def DbError.errorClass : DbError → ErrorClass
  | .invalidInput _ => .invalidInput
  | .io _ => .io
  | .corruption _ _ => .corruption
  | .unsupportedVersion _ _ _ => .unsupportedVersion
  | .poisoned => .poisoned

/-- A number in hexadecimal, filled up with zeros to a width. -/
def hexPad (width n : ℕ) : String :=
  let digits := Nat.toDigits 16 n
  String.ofList (List.replicate (width - digits.length) '0' ++ digits)

/-- Source `validate_key`. -/
def validateKey (key : Bytes) : Except DbError Unit :=
  if maxKeyBytes < key.length then
    .error (.invalidInput s!"key has {key.length} bytes; maximum is {maxKeyBytes}")
  else .ok ()

/-- Source `validate_key_value`. -/
def validateKeyValue (key value : Bytes) : Except DbError Unit := do
  validateKey key
  if maxValueBytes < value.length then
    throw (.invalidInput s!"value has {value.length} bytes; maximum is {maxValueBytes}")
  else pure ()

/-- A check that is made when `p` holds. -/
def checkWhen (p : Prop) [Decidable p] (x : Except DbError Unit) : Except DbError Unit :=
  if p then x else .ok ()

/-- Fail when `p` holds. -/
def failWhen (p : Prop) [Decidable p] (e : DbError) : Except DbError Unit := checkWhen p (.error e)

/-- The number plus one, if it is still a `u64`. -/
def checkedSucc (n : ℕ) (e : DbError) : Except DbError ℕ :=
  if n + 1 < u64Limit then .ok (n + 1) else .error e

/-- The sum, if it is still a `u64`. -/
def checkedAdd (m n : ℕ) (e : DbError) : Except DbError ℕ :=
  if m + n < u64Limit then .ok (m + n) else .error e

@[simp] theorem validateKey_eq_ok {key : Bytes} {u : Unit} :
    validateKey key = .ok u ↔ key.length ≤ maxKeyBytes := by
  unfold validateKey
  split_ifs with h
  · simpa using h
  · simpa using h

@[simp] theorem validateKeyValue_eq_ok {key value : Bytes} {u : Unit} :
    validateKeyValue key value = .ok u ↔
      key.length ≤ maxKeyBytes ∧ value.length ≤ maxValueBytes := by
  unfold validateKeyValue
  simp only [Checked.bind_eq_ok, exists_const, validateKey_eq_ok, Checked.throw_eq, Checked.pure_eq,
    Checked.guard_eq_ok, not_lt, and_true]

@[simp] theorem checkWhen_eq_ok {p : Prop} [Decidable p] {x : Except DbError Unit} {u : Unit} :
    checkWhen p x = .ok u ↔ (p → x = .ok u) := by
  unfold checkWhen
  split_ifs with h
  · simp [h]
  · simp [h]

@[simp] theorem failWhen_eq_ok {p : Prop} [Decidable p] {e : DbError} {u : Unit} :
    failWhen p e = .ok u ↔ ¬ p := by
  simp [failWhen]

@[simp] theorem checkedSucc_eq_ok {n k : ℕ} {e : DbError} :
    checkedSucc n e = .ok k ↔ n + 1 < u64Limit ∧ k = n + 1 := by
  unfold checkedSucc
  split_ifs with h
  · simp [h, eq_comm]
  · simp [h]

@[simp] theorem checkedAdd_eq_ok {m n k : ℕ} {e : DbError} :
    checkedAdd m n e = .ok k ↔ m + n < u64Limit ∧ k = m + n := by
  unfold checkedAdd
  split_ifs with h
  · simp [h, eq_comm]
  · simp [h]

end DbLab
