import DbLab.Generation.Lock
import DbLab.Lib.Decimal
import DbLab.Lib.Hex
import DbLab.Relational.RoundTrip

/-!
# The owner record of a lease

A lease writes who holds it into the lock file: the protocol, the process and the acquisition. An inspection reads this
record back and gives its bytes in hexadecimal, and a stale clear takes such a text and removes the lock if the bytes
are still there.
-/

namespace DbLab.Generation

open Checked

def generationWriterLockProtocol : String := "append_log_generation_writer_lock_v1"

/-- A number in the format `x`. -/
def lowerHex (n : ℕ) : List Char := Nat.toDigits 16 n

/-- A number in the format `0` of a width and `x`. -/
def lowerHexPadded (width n : ℕ) : List Char := List.replicate (width - (lowerHex n).length) '0' ++ lowerHex n

def acquisitionId (pid : Fin (2 ^ 32)) (unixNanos : Fin (2 ^ 128)) (counter : Fin (2 ^ 64)) : List Char :=
  Nat.toDigits 10 pid ++ '-' :: (lowerHex unixNanos ++ '-' :: lowerHexPadded 16 counter)

def ownerLines (pid : Fin (2 ^ 32)) (unixNanos : Fin (2 ^ 128)) (counter : Fin (2 ^ 64)) : List (List Char) :=
  ["protocol=".toList ++ generationWriterLockProtocol.toList, "pid=".toList ++ Nat.toDigits 10 pid,
    "acquisition=".toList ++ acquisitionId pid unixNanos counter]

/-- Every line with its line feed. -/
def unlines (lines : List (List Char)) : List Char := lines.flatMap fun line => line ++ ['\n']

/-- Source `owner_record`, of the process, the time and the counter of acquisitions. -/
def ownerRecord (pid : Fin (2 ^ 32)) (unixNanos : Fin (2 ^ 128)) (counter : Fin (2 ^ 64)) : Bytes :=
  Relational.stringBytes (String.ofList (unlines (ownerLines pid unixNanos counter)))

/-- A line that ended in a line feed, without a carriage return. -/
def stripReturn (line : List Char) : List Char := if line.getLast? = some '\r' then line.dropLast else line

/-- The lines of a text, behind the first characters of a line. -/
def linesFrom (current : List Char) : List Char → List (List Char)
  | [] => if current = [] then [] else [current]
  | c :: rest => if c = '\n' then stripReturn current :: linesFrom [] rest else linesFrom (current ++ [c]) rest

def stripPrefix (start line : List Char) : Option (List Char) :=
  if start <+: line then some (line.drop start.length) else none

def parseDigits (digits : List Char) : Option (Fin (2 ^ 32)) :=
  if h : (!digits.isEmpty && digits.all isAsciiDigit) = true ∧ decValue digits < 2 ^ 32 then
    some ⟨decValue digits, h.2⟩
  else none

/-- An unsigned number of 32 bits in decimal, with or without a plus sign. -/
def parseU32 (text : List Char) : Option (Fin (2 ^ 32)) :=
  if text.head? = some '+' then parseDigits text.tail else parseDigits text

/-- What a record tells of its owner. -/
structure RecordedOwner where
  recordedLockProtocol : Option (List Char)
  recordedPid : Option (Fin (2 ^ 32))
  acquisitionId : Option (List Char)
  deriving DecidableEq

/-- A line sets one of the values, and a later one sets it again. -/
def RecordedOwner.parseLine (owner : RecordedOwner) (line : List Char) : RecordedOwner :=
  match stripPrefix "protocol=".toList line with
  | some value => { owner with recordedLockProtocol := some value }
  | none =>
    match stripPrefix "pid=".toList line with
    | some value => { owner with recordedPid := parseU32 value }
    | none =>
      match stripPrefix "acquisition=".toList line with
      | some value => { owner with acquisitionId := some value }
      | none => owner

/-- Source `parse_owner_record`. -/
def parseOwnerRecord (record : Bytes) : RecordedOwner :=
  match String.fromUTF8? ⟨(record.map fun b => UInt8.ofNat b.val).toArray⟩ with
  | none => ⟨none, none, none⟩
  | some text => (linesFrom [] text.toList).foldl RecordedOwner.parseLine ⟨none, none, none⟩

/-- Source `GenerationWriterLockInspection`. -/
structure GenerationWriterLockInspection where
  present : Bool
  recordBytes : ℕ
  recordHex : Option Bytes
  owner : RecordedOwner
  deriving DecidableEq

/-- Source `inspect_generation_writer_lock`; `none` stands for its errors. -/
def inspectGenerationWriterLock (lock : Option LockEntry) : Option GenerationWriterLockInspection :=
  (readLockRecordIfPresent lock).map fun record =>
    { present := record.isSome
      recordBytes := record.elim 0 List.length
      recordHex := record.map Hex.encode
      owner := record.elim ⟨none, none, none⟩ parseOwnerRecord }

/-- Source `decode_hex`, of the bytes of a text. -/
def decodeHex (encoded : Bytes) : Except String Bytes :=
  if encoded.length % 2 ≠ 0 then .error "expected lock record hex must have an even number of characters"
  else if maxGenerationWriterLockBytes < encoded.length / 2 then
    .error s!"expected lock record exceeds {maxGenerationWriterLockBytes} bytes"
  else Hex.readPairs (fun _ _ => "expected lock record contains a non-hex character") 0 encoded

/-- The steps of a stale clear that nothing stops. -/
def clearSteps (i : ℕ) (expected : Bytes) : List (ℕ × LockAction) :=
  [(i, .startClear expected), (i, .readForClear), (i, .readAgainForClear), (i, .removeForClear)]

/-- The steps of an acquisition whose process dies behind some bytes of the record, or with the lease. -/
def diesAcquiring (i : ℕ) (record : Bytes) : Option ℕ → List (ℕ × LockAction)
  | some written => [(i, .createNew record), (i, .crash written)]
  | none => [(i, .createNew record), (i, .writeRecord), (i, .crash 0)]

/-- The bytes that are left of a record. -/
def leftRecord (record : Bytes) : Option ℕ → Bytes
  | some written => record.take written
  | none => record

variable {b n m k d : ℕ} {c : Char} {line current text : List Char} {lines : List (List Char)}
  {pid pid' : Fin (2 ^ 32)} {nanos nanos' : Fin (2 ^ 128)} {counter counter' : Fin (2 ^ 64)}
  {record expected encoded : Bytes} {s s' : LockState} {i j : ℕ} {lock : Option LockEntry}

/-! ### Numerals -/

theorem mem_toDigits (hb : 1 < b) (hc : c ∈ Nat.toDigits b n) : ∃ d < b, c = Nat.digitChar d := by
  induction n using Nat.strong_induction_on with
  | _ n ih =>
    rw [Nat.toDigits_eq_if hb] at hc
    split_ifs at hc with hn
    · exact ⟨n, hn, List.mem_singleton.1 hc⟩
    · rcases List.mem_append.1 hc with hinit | hlast
      · exact ih (n / b) (Nat.div_lt_self (by omega) hb) hinit
      · exact ⟨n % b, Nat.mod_lt _ (by omega), List.mem_singleton.1 hlast⟩

/-- The digits that a base of at most sixteen has. -/
def isDigitChar (c : Char) : Bool := isAsciiDigit c || (97 ≤ c.toNat && c.toNat ≤ 102)

theorem isDigitChar_digitChar : ∀ d : Fin 16, isDigitChar (Nat.digitChar d) = true := by decide

theorem isDigitChar_of_mem_toDigits (hb : 1 < b) (hle : b ≤ 16) (hc : c ∈ Nat.toDigits b n) : isDigitChar c = true := by
  obtain ⟨d, hd, rfl⟩ := mem_toDigits hb hc
  exact isDigitChar_digitChar ⟨d, hd.trans_le hle⟩

theorem isAsciiDigit_of_mem_toDigits (hc : c ∈ Nat.toDigits 10 n) : isAsciiDigit c = true := by
  obtain ⟨d, hd, rfl⟩ := mem_toDigits (by decide) hc
  have hall : ∀ d : Fin 10, isAsciiDigit (Nat.digitChar d) = true := by decide
  exact hall ⟨d, hd⟩

theorem charDigit_natDigitChar (hd : d < 10) : charDigit (Nat.digitChar d) = d := by
  have hall : ∀ d : Fin 10, charDigit (Nat.digitChar d) = d := by decide
  exact hall ⟨d, hd⟩

theorem decValue_toDigits (n : ℕ) : decValue (Nat.toDigits 10 n) = n := by
  induction n using Nat.strong_induction_on with
  | _ n ih =>
    rw [Nat.toDigits_eq_if (by decide)]
    split_ifs with hn
    · show 10 * 0 + charDigit (Nat.digitChar n) = n
      rw [charDigit_natDigitChar hn, Nat.mul_zero, Nat.zero_add]
    · rw [decValue_concat, ih (n / 10) (by omega), charDigit_natDigitChar (Nat.mod_lt n (by decide)), Nat.div_add_mod]

def nibbleValue (c : Char) : ℕ := if c.toNat ≤ 57 then c.toNat - 48 else c.toNat - 87

/-- The number that hexadecimal digits stand for. -/
def hexValue (cs : List Char) : ℕ := cs.foldl (fun n c => 16 * n + nibbleValue c) 0

theorem nibbleValue_digitChar (hd : d < 16) : nibbleValue (Nat.digitChar d) = d := by
  have hall : ∀ d : Fin 16, nibbleValue (Nat.digitChar d) = d := by decide
  exact hall ⟨d, hd⟩

theorem hexValue_lowerHex (n : ℕ) : hexValue (lowerHex n) = n := by
  induction n using Nat.strong_induction_on with
  | _ n ih =>
    rw [lowerHex, Nat.toDigits_eq_if (by decide)]
    split_ifs with hn
    · show 16 * 0 + nibbleValue (Nat.digitChar n) = n
      rw [nibbleValue_digitChar hn, Nat.mul_zero, Nat.zero_add]
    · have hinit : (Nat.toDigits 16 (n / 16)).foldl (fun n c => 16 * n + nibbleValue c) 0 = n / 16 :=
        ih (n / 16) (by omega)
      rw [hexValue, List.foldl_append, hinit, List.foldl_cons, List.foldl_nil,
        nibbleValue_digitChar (Nat.mod_lt n (by decide)), Nat.div_add_mod]

theorem hexValue_replicate (k : ℕ) (cs : List Char) : hexValue (List.replicate k '0' ++ cs) = hexValue cs := by
  induction k with
  | zero => rfl
  | succ k ih => exact ih

theorem lowerHex_injective (h : lowerHex n = lowerHex m) : n = m := by
  rw [← hexValue_lowerHex n, h, hexValue_lowerHex]

theorem lowerHexPadded_injective (h : lowerHexPadded k n = lowerHexPadded k m) : n = m := by
  have hvalue := congrArg hexValue h
  rwa [lowerHexPadded, lowerHexPadded, hexValue_replicate, hexValue_replicate, hexValue_lowerHex,
    hexValue_lowerHex] at hvalue

theorem isDigitChar_of_mem_lowerHexPadded (hc : c ∈ lowerHexPadded k n) : isDigitChar c = true := by
  rcases List.mem_append.1 hc with hzero | hhex
  · rw [List.eq_of_mem_replicate hzero]
    rfl
  · exact isDigitChar_of_mem_toDigits (by decide) le_rfl hhex

theorem parseU32_toDigits (pid : Fin (2 ^ 32)) : parseU32 (Nat.toDigits 10 pid) = some pid := by
  have hplus : (Nat.toDigits 10 pid.val).head? ≠ some '+' := by
    intro hhead
    have hdigit := isAsciiDigit_of_mem_toDigits (List.mem_of_mem_head? hhead)
    cases hdigit
  have hdigits : (!(Nat.toDigits 10 pid.val).isEmpty && (Nat.toDigits 10 pid.val).all isAsciiDigit) = true := by
    rw [Bool.and_eq_true, Bool.not_eq_true', List.isEmpty_eq_false_iff, List.all_eq_true]
    exact ⟨Nat.toDigits_ne_nil, fun _ => isAsciiDigit_of_mem_toDigits⟩
  have hvalue := decValue_toDigits pid
  rw [parseU32, if_neg hplus, parseDigits, dif_pos ⟨hdigits, by rw [hvalue]; exact pid.isLt⟩, Option.some.injEq,
    Fin.ext_iff]
  exact hvalue

/-! ### Lines -/

theorem linesFrom_append (h : '\n' ∉ line) :
    linesFrom current (line ++ '\n' :: text) = stripReturn (current ++ line) :: linesFrom [] text := by
  induction line generalizing current with
  | nil => rw [List.nil_append, List.append_nil, linesFrom, if_pos rfl]
  | cons c line ih =>
    rw [List.mem_cons, not_or] at h
    rw [List.cons_append, linesFrom, if_neg (Ne.symm h.1), ih h.2, List.append_assoc, List.singleton_append]

theorem stripReturn_eq (h : '\r' ∉ line) : stripReturn line = line :=
  if_neg fun hlast => h (List.mem_of_getLast? hlast)

theorem linesFrom_unlines (h : ∀ line ∈ lines, '\n' ∉ line ∧ '\r' ∉ line) : linesFrom [] (unlines lines) = lines := by
  induction lines with
  | nil => rfl
  | cons line lines ih =>
    rw [List.forall_mem_cons] at h
    rw [unlines, List.flatMap_cons, List.append_assoc, List.singleton_append, linesFrom_append h.1.1, List.nil_append,
      stripReturn_eq h.1.2]
    exact congrArg (line :: ·) (ih h.2)

/-- The characters of an acquisition. -/
theorem mem_acquisitionId (hc : c ∈ acquisitionId pid nanos counter) : isDigitChar c = true ∨ c = '-' := by
  rw [acquisitionId, List.mem_append, List.mem_cons, List.mem_append, List.mem_cons] at hc
  rcases hc with hpid | rfl | hnanos | rfl | hcounter
  · exact .inl (isDigitChar_of_mem_toDigits (by decide) (by decide) hpid)
  · exact .inr rfl
  · exact .inl (isDigitChar_of_mem_toDigits (by decide) le_rfl hnanos)
  · exact .inr rfl
  · exact .inl (isDigitChar_of_mem_lowerHexPadded hcounter)

theorem ownerLines_plain : ∀ line ∈ ownerLines pid nanos counter, '\n' ∉ line ∧ '\r' ∉ line := by
  have hprefix : ∀ {start digits : List Char}, ('\n' ∉ start ∧ '\r' ∉ start) →
      (∀ c ∈ digits, isDigitChar c = true ∨ c = '-') → '\n' ∉ start ++ digits ∧ '\r' ∉ start ++ digits := by
    intro start digits hstart hdigits
    rw [List.mem_append, List.mem_append, not_or, not_or]
    refine ⟨⟨hstart.1, fun hc => ?_⟩, hstart.2, fun hc => ?_⟩
    · exact absurd (hdigits _ hc) (by decide)
    · exact absurd (hdigits _ hc) (by decide)
  rw [ownerLines, List.forall_mem_cons, List.forall_mem_cons, List.forall_mem_singleton]
  refine ⟨by decide +kernel, hprefix (by decide) fun c hc => .inl ?_, hprefix (by decide) fun c hc => ?_⟩
  · exact isDigitChar_of_mem_toDigits (by decide) (by decide) hc
  · exact mem_acquisitionId hc

theorem stripPrefix_append (start line : List Char) : stripPrefix start (start ++ line) = some line := by
  rw [stripPrefix, if_pos (List.prefix_append start line), List.drop_left]

variable {owner : RecordedOwner} {value : List Char}

theorem parseLine_protocol : owner.parseLine ("protocol=".toList ++ value) =
    { owner with recordedLockProtocol := some value } := by
  rw [RecordedOwner.parseLine, stripPrefix_append]

theorem parseLine_pid : owner.parseLine ("pid=".toList ++ value) = { owner with recordedPid := parseU32 value } := by
  have hprotocol : stripPrefix "protocol=".toList ("pid=".toList ++ value) = none := rfl
  rw [RecordedOwner.parseLine, hprotocol, stripPrefix_append]

theorem parseLine_acquisition : owner.parseLine ("acquisition=".toList ++ value) =
    { owner with acquisitionId := some value } := by
  have hprotocol : stripPrefix "protocol=".toList ("acquisition=".toList ++ value) = none := rfl
  have hpid : stripPrefix "pid=".toList ("acquisition=".toList ++ value) = none := rfl
  rw [RecordedOwner.parseLine, hprotocol, hpid, stripPrefix_append]

/-- The record of an owner tells of this owner. -/
theorem parseOwnerRecord_ownerRecord : parseOwnerRecord (ownerRecord pid nanos counter) =
    ⟨some generationWriterLockProtocol.toList, some pid, some (acquisitionId pid nanos counter)⟩ := by
  rw [parseOwnerRecord, ownerRecord, Relational.fromUTF8_stringBytes]
  dsimp only
  rw [String.toList_ofList, linesFrom_unlines ownerLines_plain, ownerLines, List.foldl_cons, List.foldl_cons,
    List.foldl_cons, List.foldl_nil, parseLine_protocol, parseLine_pid, parseLine_acquisition, parseU32_toDigits]

theorem acquisitionId_injective (h : acquisitionId pid nanos counter = acquisitionId pid nanos' counter') :
    nanos = nanos' ∧ counter = counter' := by
  have hdash : ∀ {c : Char}, isDigitChar c = true → c ≠ '-' := by
    rintro c hc rfl
    cases hc
  have hrest := (List.cons.inj (List.append_cancel_left h)).2
  obtain ⟨hnanos, -, hcounter⟩ := (List.append_cons_inj_of_notMem
    (fun hc => hdash (isDigitChar_of_mem_toDigits (by decide) le_rfl hc) rfl)
    (fun hc => hdash (isDigitChar_of_mem_lowerHexPadded hc) rfl)).1 hrest
  exact ⟨Fin.ext (lowerHex_injective hnanos), Fin.ext (lowerHexPadded_injective hcounter)⟩

theorem ownerRecord_injective (h : ownerRecord pid nanos counter = ownerRecord pid' nanos' counter') :
    pid = pid' ∧ nanos = nanos' ∧ counter = counter' := by
  have howner := congrArg parseOwnerRecord h
  rw [parseOwnerRecord_ownerRecord, parseOwnerRecord_ownerRecord, RecordedOwner.mk.injEq, Option.some.injEq,
    Option.some.injEq] at howner
  obtain ⟨-, rfl, hacquisition⟩ := howner
  exact ⟨rfl, acquisitionId_injective (Option.some.inj hacquisition)⟩

/-! ### The size of a record -/

theorem size_utf8Encode_le (cs : List Char) : cs.utf8Encode.size ≤ 4 * cs.length := by
  induction cs with
  | nil => rfl
  | cons c cs ih =>
    have hc := c.utf8Size_le_four
    rw [← List.singleton_append, List.utf8Encode_append, ByteArray.size_append, List.utf8Encode_singleton,
      List.size_toByteArray, String.length_utf8EncodeChar, List.length_append, List.length_singleton]
    omega

theorem stringBytes_length_le (cs : List Char) :
    (Relational.stringBytes (String.ofList cs)).length ≤ 4 * cs.length := by
  rw [Relational.stringBytes, List.length_map]
  exact size_utf8Encode_le cs

theorem length_toDigits_le (hb : 1 < b) (hk : 0 < k) (h : n < b ^ k) : (Nat.toDigits b n).length ≤ k :=
  (Nat.length_toDigits_le_iff hb hk).2 h

/-- A record is far below the limit of a lock file. -/
theorem ownerRecord_length_le : (ownerRecord pid nanos counter).length ≤ maxGenerationWriterLockBytes := by
  have hpid : (Nat.toDigits 10 pid.val).length ≤ 10 :=
    length_toDigits_le (by decide) (by decide) (pid.isLt.trans (by decide))
  have hnanos : (lowerHex nanos).length ≤ 32 :=
    length_toDigits_le (by decide) (by decide) (nanos.isLt.trans_le (by decide))
  have hcounter : (lowerHex counter).length ≤ 16 :=
    length_toDigits_le (by decide) (by decide) (counter.isLt.trans_le (by decide))
  have hprotocol : generationWriterLockProtocol.toList.length = 36 := by decide +kernel
  refine (stringBytes_length_le _).trans ?_
  simp only [ownerLines, unlines, acquisitionId, lowerHexPadded, List.flatMap_cons, List.flatMap_nil,
    List.length_append, List.length_cons, List.length_nil, List.length_replicate, hprotocol]
  have htexts : "protocol=".toList.length = 9 ∧ "pid=".toList.length = 4 ∧ "acquisition=".toList.length = 12 := by
    decide +kernel
  rw [maxGenerationWriterLockBytes, htexts.1, htexts.2.1, htexts.2.2]
  omega

/-! ### Clears -/

theorem decodeHex_eq_ok : decodeHex encoded = .ok expected ↔
    encoded.map Hex.lower = Hex.encode expected ∧ expected.length ≤ maxGenerationWriterLockBytes := by
  have hlength : encoded.map Hex.lower = Hex.encode expected → encoded.length = 2 * expected.length := by
    intro htext
    rw [← List.length_map Hex.lower, htext, Hex.encode_length]
  rw [decodeHex]
  by_cases heven : encoded.length % 2 = 0
  · rw [if_neg (not_not.2 heven)]
    by_cases hlimit : maxGenerationWriterLockBytes < encoded.length / 2
    · rw [if_pos hlimit]
      refine iff_of_false (by simp) fun h => ?_
      have := hlength h.1
      omega
    · rw [if_neg hlimit, Hex.readPairs_eq_ok heven]
      refine (and_iff_left_of_imp fun htext => ?_).symm
      have := hlength htext
      omega
  · rw [if_pos heven]
    refine iff_of_false (by simp) fun h => ?_
    have := hlength h.1
    omega

theorem readLockRecordIfPresent_eq_some : readLockRecordIfPresent lock = some (some record) ↔
    (∃ file, lock = some (.regular file record)) ∧ record.length ≤ maxGenerationWriterLockBytes := by
  rcases lock with _ | ⟨file, bytes⟩ | _
  · simp [readLockRecordIfPresent]
  · rw [readLockRecordIfPresent]
    split_ifs with hlimit
    · refine iff_of_false (by simp) ?_
      rintro ⟨⟨file, ⟨⟩⟩, hle⟩
      omega
    · simp only [Option.some.injEq, LockEntry.regular.injEq]
      constructor
      · rintro rfl
        exact ⟨⟨file, rfl, rfl⟩, not_lt.1 hlimit⟩
      · rintro ⟨⟨file, rfl, rfl⟩, -⟩
        rfl
  · simp [readLockRecordIfPresent]

/-- A clear that nothing stops goes through exactly when the pathname holds the expected record, and it removes it. -/
theorem runSteps_clearSteps (hidle : s.agents i = .idle) : s.runSteps (clearSteps i expected) = some s' ↔
    ((∃ file, s.lock = some (.regular file expected)) ∧ expected.length ≤ maxGenerationWriterLockBytes) ∧
      s' = s.remove := by
  rw [← readLockRecordIfPresent_eq_some]
  have hremove : ∀ a b c : Agent,
      ((((s.setAgent i a).setAgent i b).setAgent i c).remove).setAgent i .idle = s.remove := by
    intro a b c
    simp only [LockState.setAgent, LockState.remove, Function.update_idem, ← hidle, Function.update_eq_self]
  by_cases hread : readLockRecordIfPresent s.lock = some (some expected)
  · have hlimit := (readLockRecordIfPresent_eq_some.1 hread).2
    have hrun : s.runSteps (clearSteps i expected) = some s.remove := by
      rw [← hremove (.clearing expected) (.matched expected) (.rematched expected)]
      simp [clearSteps, LockState.runSteps, LockState.step, hidle, not_lt.2 hlimit, LockState.setAgent,
        LockState.compare, hread]
    rw [hrun, Option.some.injEq, eq_comm]
    exact (and_iff_right hread).symm
  · refine iff_of_false ?_ fun h => hread h.1
    by_cases hlimit : maxGenerationWriterLockBytes < expected.length
    · simp [clearSteps, LockState.runSteps, LockState.step, hidle, hlimit]
    · simp [clearSteps, LockState.runSteps, LockState.step, hidle, hlimit, LockState.setAgent, LockState.compare, hread]

/-- A clear with a text removes the lock exactly when the text is the record in hexadecimal. -/
theorem clear_inspected {file : ℕ} (hidle : s.agents j = .idle) (hlock : s.lock = some (.regular file record))
    (hlimit : record.length ≤ maxGenerationWriterLockBytes) :
    (∃ expected cleared, decodeHex encoded = .ok expected ∧ s.runSteps (clearSteps j expected) = some cleared ∧
      cleared.lock = none) ↔ encoded.map Hex.lower = Hex.encode record := by
  constructor
  · rintro ⟨expected, cleared, hdecode, hrun, -⟩
    obtain ⟨⟨⟨file', hheld⟩, -⟩, -⟩ := (runSteps_clearSteps hidle).1 hrun
    rw [hlock, Option.some.injEq, LockEntry.regular.injEq] at hheld
    rw [hheld.2]
    exact (decodeHex_eq_ok.1 hdecode).1
  · intro htext
    exact ⟨record, s.remove, decodeHex_eq_ok.2 ⟨htext, hlimit⟩,
      (runSteps_clearSteps hidle).2 ⟨⟨⟨file, hlock⟩, hlimit⟩, rfl⟩, rfl⟩

theorem leftRecord_length_le (written : Option ℕ) : (leftRecord record written).length ≤ record.length := by
  cases written with
  | none => exact le_rfl
  | some written => exact List.length_take_le' written record

/-- What a process leaves that died in its acquisition or with its lease. -/
theorem runSteps_diesAcquiring (hidle : s.agents i = .idle) (hfree : s.lock = none) (written : Option ℕ) :
    s.runSteps (diesAcquiring i record written) = some { s with
      lock := some (.regular s.nextFile (leftRecord record written))
      nextFile := s.nextFile + 1 } := by
  have hagents : ∀ a : Agent, Function.update (Function.update s.agents i a) i .idle = s.agents := by
    intro a
    rw [Function.update_idem, ← hidle, Function.update_eq_self]
  cases written with
  | none =>
    simp [diesAcquiring, leftRecord, LockState.runSteps, LockState.step, hidle, hfree, LockState.setAgent,
      LockState.writeFile, hagents]
  | some written =>
    simp [diesAcquiring, leftRecord, LockState.runSteps, LockState.step, hidle, hfree, LockState.setAgent,
      LockState.writeFile, hagents]

/-- **The stale lock of a dead owner.** A process that dies in its acquisition or with its lease leaves a lock that can
be inspected, and a stale clear with a text removes it exactly when the text is the hexadecimal record of the inspection
up to the case of the letters. Behind a lease the inspection tells the process and the acquisition, which no other
record has. -/
theorem stale_lock_cleared (pid : Fin (2 ^ 32)) (nanos : Fin (2 ^ 128)) (counter : Fin (2 ^ 64)) (s : LockState)
    (i j : ℕ) (written : Option ℕ) (hi : s.agents i = .idle) (hj : s.agents j = .idle) (hfree : s.lock = none) :
    ∃ stale inspection hex,
      s.runSteps (diesAcquiring i (ownerRecord pid nanos counter) written) = some stale ∧
      inspectGenerationWriterLock stale.lock = some inspection ∧ inspection.recordHex = some hex ∧
      (∀ encoded, (∃ expected cleared, decodeHex encoded = .ok expected ∧
        stale.runSteps (clearSteps j expected) = some cleared ∧ cleared.lock = none) ↔ encoded.map Hex.lower = hex) ∧
      (written = none → inspection.owner =
          ⟨some generationWriterLockProtocol.toList, some pid, some (acquisitionId pid nanos counter)⟩ ∧
        ∀ pid' nanos' counter', Hex.encode (ownerRecord pid' nanos' counter') = hex →
          pid' = pid ∧ nanos' = nanos ∧ counter' = counter) := by
  have hlimit : (leftRecord (ownerRecord pid nanos counter) written).length ≤ maxGenerationWriterLockBytes :=
    (leftRecord_length_le written).trans ownerRecord_length_le
  refine ⟨_, ⟨true, (leftRecord (ownerRecord pid nanos counter) written).length,
      some (Hex.encode (leftRecord (ownerRecord pid nanos counter) written)),
      parseOwnerRecord (leftRecord (ownerRecord pid nanos counter) written)⟩, _,
    runSteps_diesAcquiring hi hfree written, ?_, rfl, fun encoded => ?_, ?_⟩
  · rw [inspectGenerationWriterLock, readLockRecordIfPresent_eq_some.2 ⟨⟨_, rfl⟩, hlimit⟩]
    rfl
  · exact clear_inspected hj rfl hlimit
  · rintro rfl
    refine ⟨?_, fun pid' nanos' counter' hhex => ?_⟩
    · dsimp only
      rw [leftRecord, parseOwnerRecord_ownerRecord]
    · have hrecord : ownerRecord pid' nanos' counter' = leftRecord (ownerRecord pid nanos counter) none :=
        Hex.encode_injective hhex
      rw [leftRecord] at hrecord
      exact ownerRecord_injective hrecord

def firstPid : Fin (2 ^ 32) := ⟨1234, by decide⟩
def firstNanos : Fin (2 ^ 128) := ⟨0x1b, by decide⟩
def firstCounter : Fin (2 ^ 64) := ⟨2, by decide⟩

example : String.ofList (acquisitionId firstPid firstNanos firstCounter) = "1234-1b-0000000000000002" := by
  decide +kernel

theorem stale_lock_cleared_free : ∃ stale inspection hex,
    (LockState.quiet none).runSteps (diesAcquiring 0 (ownerRecord firstPid firstNanos firstCounter) none) = some stale ∧
      inspectGenerationWriterLock stale.lock = some inspection ∧ inspection.recordHex = some hex ∧
      (∀ encoded, (∃ expected cleared, decodeHex encoded = .ok expected ∧
        stale.runSteps (clearSteps 1 expected) = some cleared ∧ cleared.lock = none) ↔ encoded.map Hex.lower = hex) ∧
      ((none : Option ℕ) = none → inspection.owner = ⟨some generationWriterLockProtocol.toList, some firstPid,
          some (acquisitionId firstPid firstNanos firstCounter)⟩ ∧
        ∀ pid' nanos' counter', Hex.encode (ownerRecord pid' nanos' counter') = hex →
          pid' = firstPid ∧ nanos' = firstNanos ∧ counter' = firstCounter) :=
  stale_lock_cleared firstPid firstNanos firstCounter (LockState.quiet none) 0 1 none rfl rfl rfl

end DbLab.Generation
