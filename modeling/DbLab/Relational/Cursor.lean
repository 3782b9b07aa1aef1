import DbLab.Lib.Cursor
import DbLab.Relational.Canonical

/-!
# The decoder at its cursor

`decode_transaction` keeps a cursor into the record and indexes behind it. No index is outside of the record, and
what the cursor sees is what `decodeTransaction` takes from the front (`Cursor.decodeTransaction_eq`).
-/

namespace DbLab.Relational

variable {bytes : Bytes} {n limit txId : ℕ}

namespace Cursor

/-- Source `take`. The end of the field stays far below the limit of `usize`, since both the cursor and the field
are shorter than a buffer can be. -/
def take (bytes : Bytes) (limit len : ℕ) : CursorReader DbError Bytes := do
  let cursor ← get
  if limit < cursor + len then throw (corruption "relational payload is truncated")
  else do
    let value ← (sliceAt bytes cursor (cursor + len) : Panicking DbError Bytes)
    set (cursor + len)
    pure value

/-- Source `take_byte`. -/
def takeByte (bytes : Bytes) (limit : ℕ) : CursorReader DbError ℕ := do
  let value ← take bytes limit 1
  let array ← (arrayOf 1 value : Panicking DbError Bytes)
  pure (leNat array)

/-- Source `take_u16`. -/
def takeU16 (bytes : Bytes) (limit : ℕ) : CursorReader DbError ℕ := do
  let value ← take bytes limit 2
  let array ← (arrayOf 2 value : Panicking DbError Bytes)
  pure (leNat array)

/-- Source `take_string`. -/
def takeString (bytes : Bytes) (limit : ℕ) : CursorReader DbError String := do
  let len ← takeU16 bytes limit
  let value ← take bytes limit len
  match String.fromUTF8? ⟨(value.map fun b => UInt8.ofNat b.val).toArray⟩ with
  | some s => pure s
  | none => throw (corruption "encoded string is not UTF-8")

/-- Source `decode_cell`. -/
def decodeCell (bytes : Bytes) (limit : ℕ) : CursorReader DbError Cell := do
  match ← takeByte bytes limit with
  | 1 =>
    let value ← take bytes limit 8
    let array ← (arrayOf 8 value : Panicking DbError Bytes)
    pure (.int64 (toI64 array))
  | 2 => return .text (← takeString bytes limit)
  | _ => throw (corruption "encoded row has unknown cell type")

def decodeColumn (bytes : Bytes) (limit : ℕ) : CursorReader DbError Column := do
  let name ← takeString bytes limit
  match ← takeByte bytes limit with
  | 1 => return ⟨name, .int64⟩
  | 2 => return ⟨name, .text⟩
  | _ => throw (corruption "encoded schema has unknown column type")

/-- Several items, one behind the other. -/
def readMany {α : Type} (read : CursorReader DbError α) : ℕ → CursorReader DbError (List α)
  | 0 => pure []
  | n + 1 => do
    let item ← read
    let items ← readMany read n
    return item :: items

def decodeOp (bytes : Bytes) (limit : ℕ) : CursorReader DbError RelOp := do
  match ← takeByte bytes limit with
  | 1 =>
    let name ← takeString bytes limit
    let primaryKey ← takeU16 bytes limit
    let columnCount ← takeU16 bytes limit
    if columnCount = 0 ∨ maxColumns < columnCount then
      throw (corruption "encoded schema column count is invalid")
    return .createTable name ⟨← readMany (decodeColumn bytes limit) columnCount, primaryKey⟩
  | 2 =>
    let table ← takeString bytes limit
    let cellCount ← takeU16 bytes limit
    if cellCount = 0 ∨ maxColumns < cellCount then
      throw (corruption "encoded row cell count is invalid")
    return .upsertRow table (← readMany (decodeCell bytes limit) cellCount)
  | 3 =>
    let table ← takeString bytes limit
    return .deleteRow table (← decodeCell bytes limit)
  | _ => throw (corruption "relational transaction contains unknown operation")

/-- Source `read_u16`, `read_u32` and `read_u64`, for fields of 2, 4 and 8 bytes. -/
def readField (bytes : Bytes) (offset width : ℕ) : Panicking DbError ℕ :=
  if bytes.length < offset + width then
    throw (corruption s!"relational u{8 * width} field is truncated")
  else do
    let array ← arrayOf width (slice bytes offset width)
    pure (leNat array)

/-- Source `decode_transaction`. -/
def decodeTransaction (bytes : Bytes) (expectedTxId : ℕ) : Panicking DbError (List RelOp) := do
  rejectWhen (bytes.length < headerLen + trailerLen) (corruption "relational transaction is truncated")
  let front ← sliceAt bytes 0 8
  rejectWhen (front ≠ magic) (corruption "relational transaction magic mismatch")
  let found ← readField bytes 8 2
  rejectWhen (found ≠ version) (.unsupportedVersion "relational transaction" found version)
  let reserved ← readField bytes 10 2
  rejectWhen (reserved ≠ 0) (corruption "relational transaction reserved header bits are nonzero")
  let txId ← readField bytes 12 8
  rejectWhen (txId ≠ expectedTxId) (corruption
    s!"relational transaction key/value id mismatch: key={expectedTxId}, value={txId}")
  let count ← readField bytes 20 4
  rejectWhen (count = 0 ∨ maxOps < count) (corruption
    s!"relational operation count {count} is outside 1..={maxOps}")
  let trailer ← subAt bytes.length trailerLen
  let expectedCrc ← readField bytes trailer 4
  let payload ← sliceAt bytes 0 trailer
  rejectWhen (expectedCrc ≠ crc32 payload) (corruption "relational transaction checksum mismatch")
  let (ops, cursor) ← (readMany (decodeOp bytes trailer) count).run headerLen
  rejectWhen (cursor ≠ trailer) (corruption "relational transaction has trailing payload bytes")
  pure ops

/-! ### The cursor and the front of the rest -/

theorem take_follows (hlimit : limit ≤ bytes.length) (len : ℕ) :
    Follows bytes limit (take bytes limit len) (Relational.take len) := by
  intro cursor hcursor
  have hrest : ((bytes.take limit).drop cursor).length = limit - cursor := by
    rw [List.length_drop, List.length_take, min_eq_left hlimit]
  have hread : (Relational.take len).run ((bytes.take limit).drop cursor) =
      if ((bytes.take limit).drop cursor).length < len then
        .error (corruption "relational payload is truncated")
      else .ok (((bytes.take limit).drop cursor).take len, ((bytes.take limit).drop cursor).drop len) := rfl
  rw [hread]
  by_cases hshort : limit < cursor + len
  · rw [if_pos (by rw [hrest]; omega)]
    show StateT.run (if limit < cursor + len then _ else _) cursor = _
    rw [if_pos hshort]
    rfl
  · rw [if_neg (by rw [hrest]; omega)]
    refine ⟨cursor + len, by omega, List.drop_drop .., ?_⟩
    show StateT.run (if limit < cursor + len then _ else _) cursor = _
    rw [if_neg hshort, sliceAt_eq (Nat.le_add_right ..) (by omega), Nat.add_sub_cancel_left,
      ← @slice_take bytes cursor len limit (by omega)]
    rfl

/-- A field of fixed width is an array of that width. -/
theorem array_follows {α : Type} (hlimit : limit ≤ bytes.length) (width : ℕ) (f : Bytes → α) :
    Follows bytes limit (do
        let value ← take bytes limit width
        let array ← (arrayOf width value : Panicking DbError Bytes)
        pure (f array)) (f <$> Relational.take width) := by
  intro cursor hcursor
  have htake := take_follows hlimit width cursor hcursor
  rw [StateT.run_map]
  cases hread : (Relational.take width).run ((bytes.take limit).drop cursor) with
  | error e =>
    rw [hread] at htake
    show StateT.run _ cursor = ofResult (.error e)
    rw [StateT.run_bind, show (take bytes limit width).run cursor = _ from htake, ofResult_error_bind]
  | ok found =>
    obtain ⟨value, rest⟩ := found
    rw [hread] at htake
    obtain ⟨cursor', hcursor', hrest, hrun⟩ := htake
    obtain ⟨hlen, -⟩ := take_run_eq_ok.1 hread
    refine ⟨cursor', hcursor', hrest, ?_⟩
    rw [StateT.run_bind, hrun, ofResult_ok_bind]
    show StateT.run (liftM (arrayOf width value : Panicking DbError Bytes) >>= fun array => pure (f array)) cursor' = _
    rw [arrayOf_eq hlen]
    rfl

theorem takeByte_follows (hlimit : limit ≤ bytes.length) :
    Follows bytes limit (takeByte bytes limit) Relational.takeByte := array_follows hlimit 1 leNat

theorem takeU16_follows (hlimit : limit ≤ bytes.length) :
    Follows bytes limit (takeU16 bytes limit) Relational.takeU16 := array_follows hlimit 2 leNat

theorem takeString_follows (hlimit : limit ≤ bytes.length) :
    Follows bytes limit (takeString bytes limit) Relational.takeString := by
  refine (takeU16_follows hlimit).bind fun len => (take_follows hlimit len).bind fun value => ?_
  cases String.fromUTF8? ⟨(value.map fun b => UInt8.ofNat b.val).toArray⟩ with
  | none => exact .throw _
  | some s => exact .pure s

theorem decodeCell_follows (hlimit : limit ≤ bytes.length) :
    Follows bytes limit (decodeCell bytes limit) Relational.decodeCell := by
  refine (takeByte_follows hlimit).bind fun kind => ?_
  match kind with
  | 1 =>
    have h := array_follows hlimit 8 fun array => Cell.int64 (toI64 array)
    rw [← bind_pure_comp] at h
    exact h
  | 2 => exact (takeString_follows hlimit).bind fun s => .pure _
  | 0 => exact .throw _
  | n + 3 => exact .throw _

theorem decodeColumn_follows (hlimit : limit ≤ bytes.length) :
    Follows bytes limit (decodeColumn bytes limit) Relational.decodeColumn := by
  refine (takeString_follows hlimit).bind fun name => (takeByte_follows hlimit).bind fun ty => ?_
  match ty with
  | 1 | 2 => exact .pure _
  | 0 => exact .throw _
  | n + 3 => exact .throw _

theorem readMany_follows {α : Type} {c : CursorReader DbError α} {read : Reader α} (h : Follows bytes limit c read)
    (n : ℕ) : Follows bytes limit (readMany c n) (Relational.readMany read n) := by
  induction n with
  | zero => exact .pure []
  | succ n ih => exact h.bind fun item => ih.bind fun items => .pure _

theorem decodeOp_follows (hlimit : limit ≤ bytes.length) :
    Follows bytes limit (decodeOp bytes limit) Relational.decodeOp := by
  refine (takeByte_follows hlimit).bind fun kind => ?_
  match kind with
  | 1 =>
    refine (takeString_follows hlimit).bind fun name => (takeU16_follows hlimit).bind fun primaryKey =>
      (takeU16_follows hlimit).bind fun count => ?_
    by_cases hcount : count = 0 ∨ maxColumns < count
    · simp only [if_pos hcount]
      exact .throw _
    · simp only [if_neg hcount]
      exact (readMany_follows (decodeColumn_follows hlimit) count).bind fun columns => .pure _
  | 2 =>
    refine (takeString_follows hlimit).bind fun table => (takeU16_follows hlimit).bind fun count => ?_
    by_cases hcount : count = 0 ∨ maxColumns < count
    · simp only [if_pos hcount]
      exact .throw _
    · simp only [if_neg hcount]
      exact (readMany_follows (decodeCell_follows hlimit) count).bind fun row => .pure _
  | 3 => exact (takeString_follows hlimit).bind fun table => (decodeCell_follows hlimit).bind fun key => .pure _
  | 0 => exact .throw _
  | n + 4 => exact .throw _

/-! ### The record -/

theorem readField_eq {offset width : ℕ} (h : offset + width ≤ bytes.length) :
    readField bytes offset width = ofResult (.ok (leNat (slice bytes offset width))) := by
  rw [readField, if_neg (not_lt.2 h), arrayOf_eq (slice_length h)]
  rfl

/-- A check that both decoders make. -/
theorem rejectWhen_eq {α : Type} {p : Prop} [Decidable p] {e : DbError} {c : Unit → Panicking DbError α}
    {f : Unit → Except DbError α} (h : ¬ p → c () = ofResult (f ())) :
    (rejectWhen p e >>= c) = ofResult (failWhen p e >>= f) := by
  by_cases hp : p
  · rw [rejectWhen_pos hp, failWhen, checkWhen, if_pos hp]
    rfl
  · rw [rejectWhen_neg hp, failWhen, checkWhen, if_neg hp]
    exact h hp

/-- **The decoder at its cursor never panics**, and it returns what `decodeTransaction` returns. -/
theorem decodeTransaction_eq (bytes : Bytes) (txId : ℕ) :
    decodeTransaction bytes txId = ofResult (Relational.decodeTransaction bytes txId) := by
  unfold decodeTransaction Relational.decodeTransaction
  refine rejectWhen_eq fun hlen => ?_
  have hlong : 28 ≤ bytes.length := not_lt.1 hlen
  have htrailer : trailerLen = 4 := rfl
  rw [sliceAt_eq (Nat.zero_le 8) (by omega), ofResult_ok_bind]
  refine rejectWhen_eq fun _ => ?_
  rw [readField_eq (by omega), ofResult_ok_bind]
  refine rejectWhen_eq fun _ => ?_
  rw [readField_eq (by omega), ofResult_ok_bind]
  refine rejectWhen_eq fun _ => ?_
  rw [readField_eq (by omega), ofResult_ok_bind]
  refine rejectWhen_eq fun _ => ?_
  rw [readField_eq (by omega), ofResult_ok_bind]
  refine rejectWhen_eq fun _ => ?_
  rw [subAt_eq (by omega), ofResult_ok_bind, readField_eq (by omega), ofResult_ok_bind,
    sliceAt_eq (Nat.zero_le _) (Nat.sub_le ..), ofResult_ok_bind]
  have hcrc : slice bytes (bytes.length - trailerLen) 4 = bytes.drop (bytes.length - trailerLen) := by
    rw [slice, List.take_of_length_le]
    rw [List.length_drop]
    omega
  rw [hcrc, slice_zero, Nat.sub_zero]
  refine rejectWhen_eq fun _ => ?_
  have hfollows := readMany_follows (decodeOp_follows (Nat.sub_le bytes.length trailerLen))
    (leNat (slice bytes 20 4)) headerLen (Nat.le_sub_of_add_le (not_lt.1 hlen))
  cases hread : (Relational.readMany Relational.decodeOp (leNat (slice bytes 20 4))).run
      ((bytes.take (bytes.length - trailerLen)).drop headerLen) with
  | error e =>
    rw [hread] at hfollows
    rw [show StateT.run _ _ = ofResult (.error e) from hfollows]
    have hread' : Relational.readMany Relational.decodeOp (leNat (slice bytes 20 4))
      ((bytes.take (bytes.length - trailerLen)).drop headerLen) = .error e := hread
    rw [hread']
    rfl
  | ok found =>
    obtain ⟨ops, rest⟩ := found
    rw [hread] at hfollows
    obtain ⟨cursor, _, rfl, hrun⟩ := hfollows
    have hread' : Relational.readMany Relational.decodeOp (leNat (slice bytes 20 4))
      ((bytes.take (bytes.length - trailerLen)).drop headerLen) =
        .ok (ops, (bytes.take (bytes.length - trailerLen)).drop cursor) := hread
    rw [hrun, ofResult_ok_bind, hread', Checked.ok_bind]
    dsimp only
    -- Nothing is left exactly when the cursor is at the checksum.
    have hend : (bytes.take (bytes.length - trailerLen)).drop cursor ≠ [] ↔ cursor ≠ bytes.length - trailerLen := by
      rw [Ne, List.drop_eq_nil_iff, List.length_take, min_eq_left (Nat.sub_le ..)]
      omega
    by_cases hcursor : cursor = bytes.length - trailerLen
    · rw [rejectWhen_neg (not_not_intro hcursor), failWhen, checkWhen,
        if_neg (by rw [hend]; exact not_not_intro hcursor)]
      rfl
    · rw [rejectWhen_pos hcursor, failWhen, checkWhen, if_pos (hend.2 hcursor)]
      rfl

end Cursor

/-- **The record of a transaction.** The operations that a store accepts and that can be encoded are decoded as
they were; bytes that are accepted are the record of what is decoded, without a byte missing or left over, and up
to the limit of a value they are what the encoder writes; and the decoder reads no byte outside of its input, so
that all other bytes are answered with an error. -/
theorem transaction_codec :
    (∀ engine ops tables txId bytes, RelationalEngine.Reached engine → 0 < txId → txId < u64Limit → ops ≠ [] →
      ops.length ≤ maxOps → applyOps engine.tables ops = .ok tables → encodeTransaction txId ops = .ok bytes →
      decodeTransaction bytes txId = .ok ops) ∧
    (∀ bytes txId ops, decodeTransaction bytes txId = .ok ops →
      (bytes.length ≤ maxValueBytes → encodeTransaction txId ops = .ok bytes) ∧
      ∃ parts, ops.mapM encodeOp = .ok parts ∧ bytes = header txId ops.length ++ parts.flatten ++
        leBytes 4 (crc32 (header txId ops.length ++ parts.flatten))) ∧
    ∀ bytes txId, Cursor.decodeTransaction bytes txId = ofResult (decodeTransaction bytes txId) := by
  refine ⟨fun engine ops tables txId bytes hreached _ hlt hne hcount happly hencode => ?_,
    fun bytes txId ops hdecode => ⟨fun hlimit => encodeTransaction_decode hlimit hdecode, ?_⟩,
    Cursor.decodeTransaction_eq⟩
  · exact decodeTransaction_encode hencode hne hcount (hreached.sized.applyOps happly).1 hlt
  · exact (decodeTransaction_eq_ok hdecode).2.2

/-- The record of the first transaction of a store is read back and written again. -/
theorem transaction_codec_notes : ∃ bytes, encodeTransaction 1 RelationalEngine.notes = .ok bytes ∧
    decodeTransaction bytes 1 = .ok RelationalEngine.notes ∧
    ∃ parts, RelationalEngine.notes.mapM encodeOp = .ok parts ∧ bytes = header 1 2 ++ parts.flatten ++
      leBytes 4 (crc32 (header 1 2 ++ parts.flatten)) := by
  have hreached : RelationalEngine.Reached RelationalEngine.fresh :=
    @RelationalEngine.Reached.opened none RelationalEngine.fresh (by decide +kernel)
  have happly : (applyOps [] RelationalEngine.notes).isOk = true := by decide +kernel
  have hencode : (encodeTransaction 1 RelationalEngine.notes).isOk = true := by decide +kernel
  cases hbytes : encodeTransaction 1 RelationalEngine.notes with
  | error e =>
    rw [hbytes] at hencode
    cases hencode
  | ok bytes =>
    cases htables : applyOps [] RelationalEngine.notes with
    | error e =>
      rw [htables] at happly
      cases happly
    | ok tables =>
      have hdecode := transaction_codec.1 RelationalEngine.fresh RelationalEngine.notes tables 1 bytes hreached
        Nat.one_pos (by rw [u64Limit_eq]; decide) (by decide) (by decide) htables hbytes
      exact ⟨bytes, rfl, hdecode, (transaction_codec.2.1 bytes 1 _ hdecode).2⟩

end DbLab.Relational
