import DbLab.Experiment.Compare
import DbLab.Lib.SortedMap
import DbLab.Record.Append

/-!
# The reference engine

An ordered map in memory with the common key-value semantics. It is the oracle that the other engines are
compared with.
-/

namespace DbLab.Memory

open Experiment Record

structure MemoryEngine where
  values : SortedMap Bytes Bytes
  deriving DecidableEq

/-- A key is in the range from `start` on, up to an end that is left out. -/
def InRange (start : Bytes) (stop : Option Bytes) (key : Bytes) : Prop :=
  start ≤ key ∧ ∀ bound ∈ stop, key < bound

instance {start key : Bytes} {stop : Option Bytes} : Decidable (InRange start stop key) :=
  decidable_of_iff (start ≤ key ∧ stop.all fun bound => key < bound) (by cases stop <;> simp [InRange])

namespace MemoryEngine

def new : MemoryEngine := ⟨.empty⟩

def len (engine : MemoryEngine) : ℕ := engine.values.entries.length

def isEmpty (engine : MemoryEngine) : Bool := engine.values.entries.isEmpty

def capabilities : EngineCapabilities where
  name := "memory-reference"
  logicalModel := .keyValue
  storageArchitecture := .inMemoryReference
  concurrency := .callerSerialized
  persistence := .volatile
  crashRecovery := .none
  distribution := .standalone
  orderedRangeScan := true
  maxKeyBytes := maxKeyBytes
  maxValueBytes := maxValueBytes

def put (key value : Bytes) : Prog MemoryEngine DbError (Option Bytes) := do
  Prog.ofExcept (validateKeyValue key value)
  let engine ← Prog.get
  Prog.set ⟨engine.values.insert key value⟩
  pure (engine.values.find key)

def get (key : Bytes) : Prog MemoryEngine DbError (Option Bytes) := do
  Prog.ofExcept (validateKey key)
  let engine ← Prog.get
  pure (engine.values.find key)

def delete (key : Bytes) : Prog MemoryEngine DbError (Option Bytes) := do
  Prog.ofExcept (validateKey key)
  let engine ← Prog.get
  Prog.set ⟨engine.values.erase key⟩
  pure (engine.values.find key)

/-- The entries of a range, in the order of their keys. -/
def range (engine : MemoryEngine) (start : Bytes) (stop : Option Bytes) : List (Bytes × Bytes) :=
  engine.values.entries.filter fun entry => InRange start stop entry.1

def rangeScan (start : Bytes) (stop : Option Bytes) (limit : ℕ) :
    Prog MemoryEngine DbError (List (Bytes × Bytes)) := do
  Prog.ofExcept (validateRangeScan start stop)
  let engine ← Prog.get
  if limit = 0 ∨ stop = some start then pure []
  else pure ((engine.range start stop).take limit)

def reopen : Prog MemoryEngine DbError Unit := pure ()

instance : KvEngine MemoryEngine where
  capabilities _ := capabilities
  put := put
  get := get
  delete := delete
  rangeScan := rangeScan
  reopen := reopen

variable {engine : MemoryEngine} {start key value : Bytes} {stop : Option Bytes}

theorem put_run (h : validateKeyValue key value = .ok ()) :
    put key value engine = (.ok (engine.values.find key), ⟨engine.values.insert key value⟩) := by
  rw [put, h]
  rfl

theorem get_run (h : validateKey key = .ok ()) : get key engine = (.ok (engine.values.find key), engine) := by
  rw [get, h]
  rfl

theorem delete_run (h : validateKey key = .ok ()) :
    delete key engine = (.ok (engine.values.find key), ⟨engine.values.erase key⟩) := by
  rw [delete, h]
  rfl

theorem mem_range : (key, value) ∈ engine.range start stop ↔
    InRange start stop key ∧ engine.values.find key = some value := by
  rw [range, List.mem_filter, decide_eq_true_eq, SortedMap.find_eq_some, and_comm]

theorem sorted_range : SortedBy Prod.fst (engine.range start stop) :=
  engine.values.sorted.sublist List.filter_sublist

theorem rangeScan_run {limit : ℕ} (h : validateRangeScan start stop = .ok ()) :
    rangeScan start stop limit engine = (.ok ((engine.range start stop).take limit), engine) := by
  rw [rangeScan, h, Prog.ofExcept_ok_bind, Prog.get_bind]
  by_cases hempty : limit = 0 ∨ stop = some start
  · rw [if_pos hempty]
    rcases hempty with rfl | rfl
    · rfl
    · have hnone : engine.range start (some start) = [] := by
        rw [range, List.filter_eq_nil_iff]
        intro entry _ hin
        obtain ⟨hle, hlt⟩ := of_decide_eq_true hin
        exact (hlt start rfl).not_ge hle
      rw [hnone, List.take_nil]
      rfl
  · rw [if_neg hempty]
    rfl

end MemoryEngine
end DbLab.Memory

namespace DbLab.Record.Op

/-- What an operation makes of the values of all keys. -/
def mutate (op : Op) (values : SortedMap Bytes Bytes) : SortedMap Bytes Bytes :=
  match op with
  | put key value => values.insert key value
  | delete key => values.erase key

theorem find_mutate {op : Op} {values : SortedMap Bytes Bytes} {key : Bytes} (sequence : ℕ) :
    (op.mutate values).find key = if op.key = key then (op.mutation sequence).value else values.find key := by
  by_cases hk : op.key = key
  · rw [if_pos hk]
    cases op with
    | put k value => exact SortedMap.find_insert.trans (if_pos hk.symm)
    | delete k => exact SortedMap.find_erase.trans (if_pos hk.symm)
  · rw [if_neg hk]
    cases op with
    | put k value => exact SortedMap.find_insert.trans (if_neg (Ne.symm hk))
    | delete k => exact SortedMap.find_erase.trans (if_neg (Ne.symm hk))

end DbLab.Record.Op
