import DbLab.Lib.Readers
import DbLab.Relational.Codec

/-!
# Transactions are read back as they were written

The decoder takes from the record of a transaction exactly the operations that the encoder was given
(`decodeTransaction_encode`), for operations whose schemas and rows have as many columns as a schema can
have. The tables that a transaction applies to see to that (`Sized.applyOps`).
-/

namespace DbLab.Relational

variable {bytes : Bytes} {n txId : ℕ}

/-! ### Fields -/

theorem reads_take (h : bytes.length = n) : Reads (take n) bytes bytes := by
  intro rest
  have hlong : ¬ (bytes ++ rest).length < n := by
    rw [List.length_append]
    omega
  show (if (bytes ++ rest).length < n then _ else _) = _
  rw [if_neg hlong, List.take_left' h, List.drop_left' h]

theorem reads_takeByte (b : Byte) : Reads takeByte [b] b.val := by
  have h := @Reads.map _ _ _ _ _ _ _ leNat (@reads_take [b] 1 rfl)
  have hvalue : leNat [b] = b.val := by simp [leNat]
  rw [hvalue] at h
  exact h

theorem reads_takeU16 (h : n ≤ 65535) : Reads takeU16 (leBytes 2 n) n := by
  have hread := @Reads.map _ _ _ _ _ _ _ leNat (@reads_take (leBytes 2 n) 2 (leBytes_length ..))
  rw [leNat_leBytes (show n < 256 ^ 2 by omega)] at hread
  exact hread

/-- The bytes of a string are UTF-8, and the string is read back. -/
theorem fromUTF8_stringBytes (s : String) :
    String.fromUTF8? ⟨((stringBytes s).map fun b => UInt8.ofNat b.val).toArray⟩ = some s := by
  have h : ((stringBytes s).map fun b => UInt8.ofNat b.val) = s.toByteArray.data.toList := by
    rw [stringBytes, List.map_map]
    conv_rhs => rw [← List.map_id s.toByteArray.data.toList]
    refine List.map_congr_left fun b _ => ?_
    show UInt8.ofNat b.toNat = b
    simp
  rw [h]
  show String.fromUTF8? s.toByteArray = some s
  rw [String.fromUTF8?, dif_pos s.isValidUTF8]
  rfl

theorem reads_takeString {s : String} (h : putString s = .ok bytes) : Reads takeString bytes s := by
  rw [putString, Checked.guard_eq_ok, Except.ok.injEq, not_lt] at h
  obtain ⟨hlen, rfl⟩ := h
  refine Reads.bind (reads_takeU16 hlen) (Reads.of_append_nil ?_)
  refine Reads.bind (reads_take rfl) ?_
  rw [fromUTF8_stringBytes]
  exact Reads.pure s

theorem toI64_i64Bytes (value : I64) : toI64 (i64Bytes value) = value := by
  obtain ⟨z, hlow, hhigh⟩ := value
  have hcast : ((z % 2 ^ 64).toNat : ℤ) = z % 2 ^ 64 := Int.toNat_of_nonneg (Int.emod_nonneg _ (by norm_num))
  have hlt : (z % 2 ^ 64).toNat < 256 ^ 8 := by
    have := Int.emod_lt_of_pos z (show (0 : ℤ) < 2 ^ 64 by norm_num)
    omega
  unfold toI64 i64Bytes
  simp only [leNat_leBytes hlt]
  have hmod : (z % 2 ^ 64).toNat % 2 ^ 64 = (z % 2 ^ 64).toNat := Nat.mod_eq_of_lt (by omega)
  simp only [hmod]
  by_cases hsmall : (z % 2 ^ 64).toNat < 2 ^ 63
  · rw [dif_pos hsmall]
    refine Subtype.ext ?_
    show ((z % 2 ^ 64).toNat : ℤ) = z
    omega
  · rw [dif_neg hsmall]
    refine Subtype.ext ?_
    show ((z % 2 ^ 64).toNat : ℤ) - 2 ^ 64 = z
    omega

theorem reads_decodeCell {cell : Cell} (h : encodeCell cell = .ok bytes) : Reads decodeCell bytes cell := by
  cases cell with
  | int64 value =>
    cases h
    have hrest : Reads (do return Cell.int64 (toI64 (← take 8)) : Reader Cell) (i64Bytes value)
        (.int64 (toI64 (i64Bytes value))) :=
      (reads_take (leBytes_length ..)).bind_pure
    rw [toI64_i64Bytes] at hrest
    exact Reads.bind (reads_takeByte 1) hrest
  | text value =>
    rw [encodeCell, Checked.bind_eq_ok] at h
    obtain ⟨encoded, hencoded, h⟩ := h
    cases h
    exact Reads.bind (reads_takeByte 2) (reads_takeString hencoded).bind_pure

theorem reads_decodeColumn {column : Column} (h : encodeColumn column = .ok bytes) :
    Reads decodeColumn bytes column := by
  rw [encodeColumn, Checked.bind_eq_ok] at h
  obtain ⟨name, hname, h⟩ := h
  cases h
  refine Reads.bind (reads_takeString hname) ?_
  obtain ⟨columnName, ty⟩ := column
  cases ty with
  | int64 => exact Reads.bind (reads_takeByte 1) (Reads.pure _)
  | text => exact Reads.bind (reads_takeByte 2) (Reads.pure _)

/-- Several items, one after another. -/
theorem reads_readMany {α : Type} {read : Reader α} {encode : α → Except DbError Bytes} {items : List α}
    {parts : List Bytes} (hread : ∀ a ∈ items, ∀ bytes, encode a = .ok bytes → Reads read bytes a)
    (h : items.mapM encode = .ok parts) : Reads (readMany read items.length) parts.flatten items := by
  rw [Checked.mapM_eq_ok] at h
  induction h with
  | nil => exact Reads.pure []
  | @cons a part items parts ha hrest ih =>
    rw [List.flatten_cons, List.length_cons, readMany]
    refine Reads.bind (hread a List.mem_cons_self part ha) ?_
    exact (ih fun b hb => hread b (List.mem_cons_of_mem _ hb)).bind_pure

/-! ### Operations -/

/-- A number of columns that a schema can have. -/
def ColumnCount (n : ℕ) : Prop := n ≠ 0 ∧ n ≤ maxColumns

/-- The decoder accepts the numbers of columns of the operation. -/
def Readable : RelOp → Prop
  | .createTable _ schema => ColumnCount schema.columns.length
  | .upsertRow _ row => ColumnCount row.length
  | .deleteRow _ _ => True

theorem ColumnCount.guard (h : ColumnCount n) : ¬ (n = 0 ∨ maxColumns < n) := by
  rintro (hzero | hlt)
  · exact h.1 hzero
  · exact hlt.not_ge h.2

theorem putU16_eq_ok : putU16 n = .ok bytes ↔ n ≤ 65535 ∧ bytes = leBytes 2 n := by
  rw [putU16, Checked.guard_eq_ok, Except.ok.injEq, not_lt, eq_comm]

theorem reads_decodeOp {op : RelOp} (hop : Readable op) (h : encodeOp op = .ok bytes) :
    Reads decodeOp bytes op := by
  cases op with
  | createTable name schema =>
    rw [encodeOp] at h
    simp only [Checked.bind_eq_ok, putU16_eq_ok, Except.ok.injEq] at h
    obtain ⟨encodedName, hname, _, ⟨hkey, rfl⟩, _, ⟨hcount, rfl⟩, columns, hcolumns, rfl⟩ := h
    refine Reads.bind (reads_takeByte 1) (Reads.bind (reads_takeString hname)
      (Reads.bind (reads_takeU16 hkey) (Reads.bind (reads_takeU16 hcount) ?_)))
    simp only [if_neg (ColumnCount.guard hop)]
    exact (reads_readMany (fun _ _ _ hcolumn => reads_decodeColumn hcolumn) hcolumns).bind_pure
  | upsertRow table row =>
    rw [encodeOp] at h
    simp only [Checked.bind_eq_ok, putU16_eq_ok, Except.ok.injEq] at h
    obtain ⟨encodedTable, htable, _, ⟨hcount, rfl⟩, cells, hcells, rfl⟩ := h
    refine Reads.bind (reads_takeByte 2) (Reads.bind (reads_takeString htable)
      (Reads.bind (reads_takeU16 hcount) ?_))
    simp only [if_neg (ColumnCount.guard hop)]
    exact (reads_readMany (fun _ _ _ hcell => reads_decodeCell hcell) hcells).bind_pure
  | deleteRow table key =>
    rw [encodeOp] at h
    simp only [Checked.bind_eq_ok, Except.ok.injEq] at h
    obtain ⟨encodedTable, htable, encodedKey, hkey, rfl⟩ := h
    refine Reads.bind (reads_takeByte 3) (Reads.bind (reads_takeString htable) ?_)
    exact (reads_decodeCell hkey).bind_pure

/-! ### Transactions -/

/-- The header of a record. -/
def header (txId count : ℕ) : Bytes :=
  magic ++ (leBytes 2 version ++ (leBytes 2 0 ++ (leBytes 8 txId ++ leBytes 4 count)))

theorem header_length {count : ℕ} : (header txId count).length = headerLen := by
  simp [header, magic, headerLen]

/-- The bytes of a record: its header, its operations, and the checksum over both. -/
theorem encodeTransaction_eq_ok {ops : List RelOp} (h : encodeTransaction txId ops = .ok bytes) :
    ∃ parts, ops.mapM encodeOp = .ok parts ∧
      bytes = header txId ops.length ++ parts.flatten ++
        leBytes 4 (crc32 (header txId ops.length ++ parts.flatten)) := by
  rw [encodeTransaction, Checked.guard_eq_ok, Checked.bind_eq_ok] at h
  obtain ⟨-, out, hout, h⟩ := h
  cases h
  have hloop : ∀ (ops : List RelOp) (start out : Bytes), ops.foldlM (fun out op => do
      let encoded ← encodeOp op
      if maxValueBytes < (out ++ encoded).length + trailerLen then
        .error (.invalidInput
          s!"encoded relational transaction exceeds the {maxValueBytes}-byte backing value limit")
      else .ok (out ++ encoded)) start = .ok out →
      ∃ parts, ops.mapM encodeOp = .ok parts ∧ out = start ++ parts.flatten := by
    intro ops
    induction ops with
    | nil =>
      intro start out h
      cases h
      exact ⟨[], rfl, by rw [List.flatten_nil, List.append_nil]⟩
    | cons op ops ih =>
      intro start out h
      rw [List.foldlM_cons, Checked.bind_eq_ok] at h
      obtain ⟨middle, hmiddle, h⟩ := h
      rw [Checked.bind_eq_ok] at hmiddle
      obtain ⟨encoded, hencoded, hmiddle⟩ := hmiddle
      rw [Checked.guard_eq_ok, Except.ok.injEq] at hmiddle
      obtain ⟨-, rfl⟩ := hmiddle
      obtain ⟨parts, hparts, rfl⟩ := ih _ _ h
      refine ⟨encoded :: parts, ?_, by rw [List.flatten_cons, List.append_assoc]⟩
      rw [Checked.mapM_eq_ok] at hparts ⊢
      exact .cons hencoded hparts
  obtain ⟨parts, hparts, rfl⟩ := hloop ops _ out hout
  exact ⟨parts, hparts, rfl⟩

/-- **The decoder reads what the encoder has written.** -/
theorem decodeTransaction_encode {ops : List RelOp} (h : encodeTransaction txId ops = .ok bytes)
    (hne : ops ≠ []) (hcount : ops.length ≤ maxOps) (hops : ∀ op ∈ ops, Readable op)
    (hid : txId < u64Limit) : decodeTransaction bytes txId = .ok ops := by
  obtain ⟨parts, hparts, rfl⟩ := encodeTransaction_eq_ok h
  have hid' : txId < 256 ^ 8 := by
    rw [u64Limit_eq] at hid
    omega
  have hcount' : ops.length < 256 ^ 4 := by
    have hmax : maxOps = 1024 := rfl
    omega
  have hheader := @header_length txId ops.length
  have hlen24 : (header txId ops.length).length = 24 := hheader
  -- The fields of the header, by their offsets.
  have hfield : ∀ i k, i + k ≤ 24 → slice (header txId ops.length ++ parts.flatten ++
      leBytes 4 (crc32 (header txId ops.length ++ parts.flatten))) i k = slice (header txId ops.length) i k := by
    intro i k hik
    rw [List.append_assoc, slice_append_left (by omega)]
  have hmagicLen : magic.length = 8 := rfl
  have hmagic : (header txId ops.length).take 8 = magic := List.take_left' rfl
  have hversion : slice (header txId ops.length) 8 2 = leBytes 2 version := by
    show slice (magic ++ _) (8 + 0) 2 = _
    rw [slice_append_right hmagicLen, slice_append_self (leBytes_length ..)]
  have hreserved : slice (header txId ops.length) 10 2 = leBytes 2 0 := by
    show slice (magic ++ _) (8 + 2) 2 = _
    rw [slice_append_right hmagicLen]
    show slice (leBytes 2 version ++ _) (2 + 0) 2 = _
    rw [slice_append_right (leBytes_length ..), slice_append_self (leBytes_length ..)]
  have htxId : slice (header txId ops.length) 12 8 = leBytes 8 txId := by
    show slice (magic ++ _) (8 + 4) 8 = _
    rw [slice_append_right hmagicLen]
    show slice (leBytes 2 version ++ _) (2 + 2) 8 = _
    rw [slice_append_right (leBytes_length ..)]
    show slice (leBytes 2 0 ++ _) (2 + 0) 8 = _
    rw [slice_append_right (leBytes_length ..), slice_append_self (leBytes_length ..)]
  have hnumber : slice (header txId ops.length) 20 4 = leBytes 4 ops.length := by
    show slice (magic ++ _) (8 + 12) 4 = _
    rw [slice_append_right hmagicLen]
    show slice (leBytes 2 version ++ _) (2 + 10) 4 = _
    rw [slice_append_right (leBytes_length ..)]
    show slice (leBytes 2 0 ++ _) (2 + 8) 4 = _
    rw [slice_append_right (leBytes_length ..)]
    show slice (leBytes 8 txId ++ _) (8 + 0) 4 = _
    rw [slice_append_right (leBytes_length ..)]
    exact List.take_of_length_le (leBytes_length ..).le
  have hlength : (header txId ops.length ++ parts.flatten ++
      leBytes 4 (crc32 (header txId ops.length ++ parts.flatten))).length =
      (header txId ops.length ++ parts.flatten).length + 4 := by
    rw [@List.length_append _ (header txId ops.length ++ parts.flatten), leBytes_length]
  have htrailer : (header txId ops.length ++ parts.flatten).length + 4 - trailerLen =
      (header txId ops.length ++ parts.flatten).length := Nat.add_sub_cancel ..
  have hread := reads_readMany (fun op hop _ hencoded => reads_decodeOp (hops op hop) hencoded) hparts []
  rw [List.append_nil] at hread
  unfold decodeTransaction
  rw [failWhen_eq_ok (u := ()) |>.2 ?_, Checked.ok_bind, failWhen_eq_ok (u := ()) |>.2 ?_, Checked.ok_bind,
    failWhen_eq_ok (u := ()) |>.2 ?_, Checked.ok_bind, failWhen_eq_ok (u := ()) |>.2 ?_, Checked.ok_bind,
    failWhen_eq_ok (u := ()) |>.2 ?_, Checked.ok_bind]
  dsimp only
  rw [hfield 20 4 (by omega), hnumber, leNat_leBytes hcount', hlength, htrailer]
  rw [failWhen_eq_ok (u := ()) |>.2 ?_, Checked.ok_bind, failWhen_eq_ok (u := ()) |>.2 ?_, Checked.ok_bind]
  · rw [List.take_left, List.drop_left' hheader]
    have hall : readMany decodeOp ops.length parts.flatten = .ok (ops, []) := hread
    rw [hall, Checked.ok_bind]
    rfl
  · rw [List.drop_left, leNat_leBytes (crc32_lt _), List.take_left]
    exact not_not.2 rfl
  · rintro (hzero | hlt)
    · exact hne (List.length_eq_zero_iff.1 hzero)
    · exact hlt.not_ge hcount
  · rw [hfield 12 8 (by omega), htxId, leNat_leBytes hid']
    exact not_not.2 rfl
  · rw [hfield 10 2 (by omega), hreserved]
    decide
  · rw [hfield 8 2 (by omega), hversion]
    decide
  · rw [List.append_assoc, List.take_append_of_le_length (by omega), hmagic]
    exact not_not.2 rfl
  · rw [hlength, List.length_append, hheader]
    show ¬ headerLen + parts.flatten.length + 4 < headerLen + 4
    omega

/-! ### What a transaction applies to -/

/-- Every table has a schema with as many columns as a schema can have. -/
def Sized (tables : Tables) : Prop := ∀ entry ∈ tables, ColumnCount entry.2.schema.columns.length

theorem Sized.insert {tables : Tables} {name : String} {state : TableState} (h : Sized tables)
    (hstate : ColumnCount state.schema.columns.length) : Sized (tables.insert name state) := by
  intro entry hentry
  rcases mem_of_mem_upsertBy hentry with rfl | hentry
  · exact hstate
  · exact h entry hentry

theorem Sized.get {tables : Tables} {name : String} {state : TableState} (h : Sized tables)
    (hget : tables.get name = some state) : ColumnCount state.schema.columns.length := by
  rw [Tables.get, Option.map_eq_some_iff] at hget
  obtain ⟨entry, hentry, rfl⟩ := hget
  exact h entry (List.mem_of_find?_eq_some hentry)

/-- An operation that applies can be read back, and keeps the tables so. -/
theorem Sized.applyOp {tables tables' : Tables} {op : RelOp} (h : Sized tables)
    (happly : Relational.applyOp tables op = .ok tables') : Readable op ∧ Sized tables' := by
  cases op with
  | createTable name schema =>
    rw [Relational.applyOp, Checked.bind_eq_ok] at happly
    obtain ⟨_, -, happly⟩ := happly
    split at happly
    · cases happly
    · rename_i hschema
      rw [Checked.guard_eq_ok, Except.ok.injEq] at happly
      obtain ⟨-, rfl⟩ := happly
      have hcolumns : ColumnCount schema.columns.length := by
        unfold validateSchema at hschema
        rw [Checked.guard_eq_ok, not_or, not_lt] at hschema
        exact ⟨fun hzero => hschema.1.1 (List.length_eq_zero_iff.1 hzero), hschema.1.2⟩
      exact ⟨hcolumns, h.insert hcolumns⟩
  | upsertRow table row =>
    rw [Relational.applyOp] at happly
    cases hget : tables.get table with
    | none =>
      rw [hget] at happly
      cases happly
    | some state =>
      rw [hget] at happly
      dsimp only at happly
      rw [Checked.bind_eq_ok] at happly
      obtain ⟨_, hrow, happly⟩ := happly
      cases happly
      have hcolumns := h.get hget
      have hlength : row.length = state.schema.columns.length := by
        rw [validateRow, Checked.guard_eq_ok, not_not] at hrow
        exact hrow.1
      refine ⟨?_, h.insert hcolumns⟩
      rw [Readable, hlength]
      exact hcolumns
  | deleteRow table key =>
    rw [Relational.applyOp] at happly
    cases hget : tables.get table with
    | none =>
      rw [hget] at happly
      cases happly
    | some state =>
      rw [hget] at happly
      dsimp only at happly
      rw [Checked.bind_eq_ok] at happly
      obtain ⟨_, -, happly⟩ := happly
      cases happly
      have hcolumns := h.get hget
      exact ⟨trivial, h.insert hcolumns⟩

/-- **The operations of a transaction that applies can be read back.** -/
theorem Sized.applyOps {tables tables' : Tables} {ops : List RelOp} (h : Sized tables)
    (happly : Relational.applyOps tables ops = .ok tables') : (∀ op ∈ ops, Readable op) ∧ Sized tables' := by
  rw [Relational.applyOps] at happly
  induction ops generalizing tables with
  | nil =>
    cases happly
    exact ⟨fun op hop => absurd hop List.not_mem_nil, h⟩
  | cons op ops ih =>
    rw [List.foldlM_cons, Checked.bind_eq_ok] at happly
    obtain ⟨middle, hmiddle, happly⟩ := happly
    obtain ⟨hop, hsized⟩ := h.applyOp hmiddle
    obtain ⟨hops, hend⟩ := ih hsized happly
    exact ⟨List.forall_mem_cons.2 ⟨hop, hops⟩, hend⟩

end DbLab.Relational
