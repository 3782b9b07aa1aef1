import DbLab.Relational.Atomic

/-!
# Transactions have one record

The decoder accepts no bytes but those that the encoder writes (`decodeTransaction_eq_ok`): every field takes the
encoding of its value from the front, lists take those of their items, and nothing is left in front of the
checksum.
-/

namespace DbLab.Relational

variable {bytes input rest : Bytes} {n txId : ℕ}

/-! ### Fields -/

theorem bind_run_eq_ok {α β : Type} {read : Reader α} {f : α → Reader β} {b : β} :
    (read >>= f).run input = .ok (b, rest) ↔
      ∃ a middle, read.run input = .ok (a, middle) ∧ (f a).run middle = .ok (b, rest) := by
  rw [StateT.run_bind, Checked.bind_eq_ok]
  constructor
  · rintro ⟨⟨a, middle⟩, hread, hrest⟩
    exact ⟨a, middle, hread, hrest⟩
  · rintro ⟨a, middle, hread, hrest⟩
    exact ⟨(a, middle), hread, hrest⟩

theorem pure_run_eq_ok {α : Type} {a b : α} :
    (pure a : Reader α).run input = .ok (b, rest) ↔ a = b ∧ input = rest := by
  rw [StateT.run_pure, Checked.pure_eq, Except.ok.injEq, Prod.mk.injEq]

theorem throw_run {α : Type} {e : DbError} {b : α} : (throw e : Reader α).run input ≠ .ok (b, rest) := by
  intro h
  cases h

theorem take_run_eq_ok {value : Bytes} :
    (take n).run input = .ok (value, rest) ↔ value.length = n ∧ input = value ++ rest := by
  show (if input.length < n then _ else Except.ok (input.take n, input.drop n)) = _ ↔ _
  rw [Checked.guard_eq_ok, Except.ok.injEq, Prod.mk.injEq, not_lt]
  constructor
  · rintro ⟨hlen, rfl, rfl⟩
    exact ⟨List.length_take_of_le hlen, (List.take_append_drop ..).symm⟩
  · rintro ⟨rfl, rfl⟩
    rw [List.length_append, List.take_left, List.drop_left]
    exact ⟨Nat.le_add_right .., rfl, rfl⟩

/-- A number that is taken from the front. -/
theorem takeNat_run_eq_ok {width value : ℕ} (h : (leNat <$> take width : Reader ℕ).run input = .ok (value, rest)) :
    value < 256 ^ width ∧ input = leBytes width value ++ rest := by
  rw [StateT.run_map, Checked.map_eq_ok] at h
  obtain ⟨⟨field, rest'⟩, htake, heq⟩ := h
  obtain ⟨rfl, rfl⟩ := Prod.mk.inj heq
  obtain ⟨rfl, rfl⟩ := take_run_eq_ok.1 htake
  exact ⟨leNat_lt field, by rw [leBytes_leNat]⟩

theorem takeU16_run_eq_ok {value : ℕ} (h : takeU16.run input = .ok (value, rest)) :
    value ≤ 65535 ∧ input = leBytes 2 value ++ rest := by
  obtain ⟨hlt, rfl⟩ := takeNat_run_eq_ok h
  exact ⟨by omega, rfl⟩

theorem takeByte_run_eq_ok {value : ℕ} (h : takeByte.run input = .ok (value, rest)) :
    input = lowByte value :: rest := by
  obtain ⟨-, rfl⟩ := takeNat_run_eq_ok h
  rfl

/-- The UTF-8 bytes of a string that was read are those bytes. -/
theorem stringBytes_of_fromUTF8 {value : Bytes} {s : String}
    (h : String.fromUTF8? ⟨(value.map fun b => UInt8.ofNat b.val).toArray⟩ = some s) : stringBytes s = value := by
  rw [String.fromUTF8?] at h
  split_ifs at h with hvalid
  cases h
  show List.map _ (value.map fun b => UInt8.ofNat b.val) = value
  rw [List.map_map]
  refine (List.map_congr_left fun b _ => ?_).trans (List.map_id _)
  refine Fin.ext ?_
  show b.val % 256 = b.val
  exact Nat.mod_eq_of_lt b.isLt

theorem takeString_run_eq_ok {s : String} (h : takeString.run input = .ok (s, rest)) :
    ∃ encoded, putString s = .ok encoded ∧ input = encoded ++ rest := by
  unfold takeString at h
  replace h := bind_run_eq_ok.1 h
  obtain ⟨len, middle, hlen, h⟩ := h
  obtain ⟨hle, rfl⟩ := takeU16_run_eq_ok hlen
  replace h := bind_run_eq_ok.1 h
  obtain ⟨value, rest', hvalue, h⟩ := h
  obtain ⟨rfl, rfl⟩ := take_run_eq_ok.1 hvalue
  cases hutf8 : String.fromUTF8? ⟨(value.map fun b => UInt8.ofNat b.val).toArray⟩ with
  | none =>
    rw [hutf8] at h
    exact absurd h throw_run
  | some s' =>
    rw [hutf8] at h
    obtain ⟨rfl, rfl⟩ := pure_run_eq_ok.1 h
    have hbytes := stringBytes_of_fromUTF8 hutf8
    refine ⟨leBytes 2 value.length ++ value, ?_, by rw [List.append_assoc]⟩
    rw [putString, hbytes, if_neg (not_lt.2 hle)]

theorem i64Bytes_toI64 {value : Bytes} (h : value.length = 8) : i64Bytes (toI64 value) = value := by
  have hlt : leNat value < 2 ^ 64 := by
    have := leNat_lt value
    rw [h] at this
    omega
  have hnat : ((toI64 value).val % 2 ^ 64).toNat = leNat value := by
    unfold toI64
    simp only [Nat.mod_eq_of_lt hlt]
    by_cases hsmall : leNat value < 2 ^ 63
    · rw [dif_pos hsmall]
      show (((leNat value : ℕ) : ℤ) % 2 ^ 64).toNat = leNat value
      omega
    · rw [dif_neg hsmall]
      show ((((leNat value : ℕ) : ℤ) - 2 ^ 64) % 2 ^ 64).toNat = leNat value
      omega
  rw [i64Bytes, hnat, ← h, leBytes_leNat]

theorem decodeCell_run_eq_ok {cell : Cell} (h : decodeCell.run input = .ok (cell, rest)) :
    ∃ encoded, encodeCell cell = .ok encoded ∧ input = encoded ++ rest := by
  unfold decodeCell at h
  replace h := bind_run_eq_ok.1 h
  obtain ⟨kind, middle, hkind, h⟩ := h
  obtain rfl := takeByte_run_eq_ok hkind
  split at h
  · replace h := bind_run_eq_ok.1 h
    obtain ⟨value, rest', hvalue, h⟩ := h
    obtain ⟨hlen, rfl⟩ := take_run_eq_ok.1 hvalue
    obtain ⟨rfl, rfl⟩ := pure_run_eq_ok.1 h
    exact ⟨1 :: i64Bytes (toI64 value), rfl, by rw [i64Bytes_toI64 hlen]; rfl⟩
  · replace h := bind_run_eq_ok.1 h
    obtain ⟨s, rest', hs, h⟩ := h
    obtain ⟨encoded, hencoded, rfl⟩ := takeString_run_eq_ok hs
    obtain ⟨rfl, rfl⟩ := pure_run_eq_ok.1 h
    exact ⟨2 :: encoded, by rw [encodeCell, hencoded, Checked.ok_bind], rfl⟩
  · exact absurd h throw_run

theorem decodeColumn_run_eq_ok {column : Column} (h : decodeColumn.run input = .ok (column, rest)) :
    ∃ encoded, encodeColumn column = .ok encoded ∧ input = encoded ++ rest := by
  unfold decodeColumn at h
  replace h := bind_run_eq_ok.1 h
  obtain ⟨name, middle, hname, h⟩ := h
  obtain ⟨encoded, hencoded, rfl⟩ := takeString_run_eq_ok hname
  replace h := bind_run_eq_ok.1 h
  obtain ⟨ty, rest', hty, h⟩ := h
  obtain rfl := takeByte_run_eq_ok hty
  split at h
  · obtain ⟨rfl, rfl⟩ := pure_run_eq_ok.1 h
    exact ⟨encoded ++ [1], by rw [encodeColumn, hencoded, Checked.ok_bind]; rfl, by rw [List.append_assoc]; rfl⟩
  · obtain ⟨rfl, rfl⟩ := pure_run_eq_ok.1 h
    exact ⟨encoded ++ [2], by rw [encodeColumn, hencoded, Checked.ok_bind]; rfl, by rw [List.append_assoc]; rfl⟩
  · exact absurd h throw_run

/-- Several items take the encodings of the items. -/
theorem readMany_run_eq_ok {α : Type} {read : Reader α} {encode : α → Except DbError Bytes}
    (hread : ∀ input a rest, read.run input = .ok (a, rest) →
      ∃ encoded, encode a = .ok encoded ∧ input = encoded ++ rest) {items : List α}
    (h : (readMany read n).run input = .ok (items, rest)) :
    items.length = n ∧ ∃ parts, items.mapM encode = .ok parts ∧ input = parts.flatten ++ rest := by
  induction n generalizing input items rest with
  | zero =>
    obtain ⟨rfl, rfl⟩ := pure_run_eq_ok.1 h
    exact ⟨rfl, [], rfl, rfl⟩
  | succ n ih =>
    rw [readMany] at h
    replace h := bind_run_eq_ok.1 h
    obtain ⟨item, middle, hitem, h⟩ := h
    obtain ⟨encoded, hencoded, rfl⟩ := hread _ _ _ hitem
    replace h := bind_run_eq_ok.1 h
    obtain ⟨others, rest', hothers, h⟩ := h
    obtain ⟨hlen, parts, hparts, rfl⟩ := ih hothers
    obtain ⟨rfl, rfl⟩ := pure_run_eq_ok.1 h
    refine ⟨by rw [List.length_cons, hlen], encoded :: parts, ?_, by rw [List.flatten_cons, List.append_assoc]⟩
    rw [Checked.mapM_eq_ok] at hparts ⊢
    exact .cons hencoded hparts

/-! ### Operations -/

theorem decodeOp_run_eq_ok {op : RelOp} (h : decodeOp.run input = .ok (op, rest)) :
    ∃ encoded, encodeOp op = .ok encoded ∧ input = encoded ++ rest := by
  unfold decodeOp at h
  replace h := bind_run_eq_ok.1 h
  obtain ⟨kind, middle, hkind, h⟩ := h
  obtain rfl := takeByte_run_eq_ok hkind
  -- One case for each tag; what each reader has taken is what the encoder writes for it.
  split at h
  · replace h := bind_run_eq_ok.1 h
    obtain ⟨name, m₁, hname, h⟩ := h
    obtain ⟨encodedName, hencodedName, rfl⟩ := takeString_run_eq_ok hname
    replace h := bind_run_eq_ok.1 h
    obtain ⟨primaryKey, m₂, hkey, h⟩ := h
    obtain ⟨hkeyLe, rfl⟩ := takeU16_run_eq_ok hkey
    replace h := bind_run_eq_ok.1 h
    obtain ⟨count, m₃, hcount, h⟩ := h
    obtain ⟨hcountLe, rfl⟩ := takeU16_run_eq_ok hcount
    dsimp only at h
    split_ifs at h with hbad
    · exact absurd h throw_run
    replace h := bind_run_eq_ok.1 h
    obtain ⟨columns, m₄, hcolumns, h⟩ := h
    obtain ⟨hlen, parts, hparts, rfl⟩ := readMany_run_eq_ok (fun _ _ _ => decodeColumn_run_eq_ok) hcolumns
    obtain ⟨rfl, rfl⟩ := pure_run_eq_ok.1 h
    refine ⟨1 :: (encodedName ++ (leBytes 2 primaryKey ++ (leBytes 2 count ++ parts.flatten))), ?_, ?_⟩
    · rw [encodeOp, hencodedName, Checked.ok_bind, putU16_eq_ok.2 ⟨hkeyLe, rfl⟩, Checked.ok_bind,
        putU16_eq_ok.2 ⟨hlen.symm ▸ hcountLe, rfl⟩, Checked.ok_bind, hparts, Checked.ok_bind, hlen]
    · simp only [List.cons_append, List.append_assoc]
      rfl
  · replace h := bind_run_eq_ok.1 h
    obtain ⟨table, m₁, htable, h⟩ := h
    obtain ⟨encodedTable, hencodedTable, rfl⟩ := takeString_run_eq_ok htable
    replace h := bind_run_eq_ok.1 h
    obtain ⟨count, m₂, hcount, h⟩ := h
    obtain ⟨hcountLe, rfl⟩ := takeU16_run_eq_ok hcount
    dsimp only at h
    split_ifs at h with hbad
    · exact absurd h throw_run
    replace h := bind_run_eq_ok.1 h
    obtain ⟨row, m₃, hrow, h⟩ := h
    obtain ⟨hlen, parts, hparts, rfl⟩ := readMany_run_eq_ok (fun _ _ _ => decodeCell_run_eq_ok) hrow
    obtain ⟨rfl, rfl⟩ := pure_run_eq_ok.1 h
    refine ⟨2 :: (encodedTable ++ (leBytes 2 count ++ parts.flatten)), ?_, ?_⟩
    · rw [encodeOp, hencodedTable, Checked.ok_bind, putU16_eq_ok.2 ⟨hlen.symm ▸ hcountLe, rfl⟩, Checked.ok_bind,
        hparts, Checked.ok_bind, hlen]
    · simp only [List.cons_append, List.append_assoc]
      rfl
  · replace h := bind_run_eq_ok.1 h
    obtain ⟨table, m₁, htable, h⟩ := h
    obtain ⟨encodedTable, hencodedTable, rfl⟩ := takeString_run_eq_ok htable
    replace h := bind_run_eq_ok.1 h
    obtain ⟨key, m₂, hkey, h⟩ := h
    obtain ⟨encodedKey, hencodedKey, rfl⟩ := decodeCell_run_eq_ok hkey
    obtain ⟨rfl, rfl⟩ := pure_run_eq_ok.1 h
    refine ⟨3 :: (encodedTable ++ encodedKey), ?_, by rw [List.cons_append, List.append_assoc]; rfl⟩
    rw [encodeOp, hencodedTable, Checked.ok_bind, hencodedKey, Checked.ok_bind]
  · exact absurd h throw_run

/-! ### Transactions -/

/-- The first 24 bytes of a record that is accepted. -/
theorem take_headerLen {count : ℕ} (hlen : headerLen + trailerLen ≤ bytes.length) (hmagic : bytes.take 8 = magic)
    (hversion : leNat (slice bytes 8 2) = version) (hreserved : leNat (slice bytes 10 2) = 0)
    (hid : leNat (slice bytes 12 8) = txId) (hcount : leNat (slice bytes 20 4) = count) :
    bytes.take headerLen = header txId count := by
  have hlong : 28 ≤ bytes.length := hlen
  rw [header, ← hmagic, ← hversion, ← hreserved, ← hid, ← hcount, ← slice_eq_leBytes (by omega),
    ← slice_eq_leBytes (by omega), ← slice_eq_leBytes (by omega), ← slice_eq_leBytes (by omega)]
  rw [slice_append_slice, slice_append_slice, slice_append_slice, take_append_slice]
  rfl

/-- **What the decoder accepts**: a header with the expected id, the encodings of the operations and the
checksum, and nothing else. -/
theorem decodeTransaction_eq_ok {ops : List RelOp} (h : decodeTransaction bytes txId = .ok ops) :
    ops ≠ [] ∧ ops.length ≤ maxOps ∧ ∃ parts, ops.mapM encodeOp = .ok parts ∧
      bytes = header txId ops.length ++ parts.flatten ++
        leBytes 4 (crc32 (header txId ops.length ++ parts.flatten)) := by
  unfold decodeTransaction at h
  dsimp only at h
  simp only [Checked.bind_eq_ok, failWhen_eq_ok, not_not, not_lt, not_or] at h
  obtain ⟨_, hlen, _, hmagic, _, hversion, _, hreserved, _, hid, _, ⟨hpos, hle⟩, _, hcrc, ⟨found, rest⟩, hread, _,
    hrest, hops⟩ := h
  obtain rfl := Except.ok.inj hops
  dsimp only at hread hrest
  obtain ⟨hcount, parts, hparts, hpayload⟩ := readMany_run_eq_ok (fun _ _ _ => decodeOp_run_eq_ok) hread
  rw [hrest, List.append_nil] at hpayload
  have htrailer : trailerLen ≤ bytes.length := le_trans (Nat.le_add_left ..) hlen
  have hheader := take_headerLen hlen hmagic hversion hreserved hid hcount.symm
  have hfront : bytes.take (bytes.length - trailerLen) = header txId found.length ++ parts.flatten := by
    rw [← hheader, ← hpayload]
    have hfront : bytes.take headerLen = (bytes.take (bytes.length - trailerLen)).take headerLen := by
      rw [List.take_take, min_eq_left (by omega)]
    rw [hfront, List.take_append_drop]
  refine ⟨fun hnil => hpos (hcount.symm.trans (congrArg List.length hnil)), hcount ▸ hle, parts, hparts, ?_⟩
  rw [← hfront, ← hcrc]
  have hdrop : (bytes.drop (bytes.length - trailerLen)).length = 4 := by
    rw [List.length_drop]
    have : trailerLen = 4 := rfl
    omega
  conv_rhs => rw [← hdrop, leBytes_leNat, List.take_append_drop]

/-- The encoder writes what the limit admits. -/
theorem encodeTransaction_of_parts {ops : List RelOp} {parts : List Bytes} (hcount : ops.length ≤ maxOps)
    (hparts : ops.mapM encodeOp = .ok parts)
    (hlimit : (header txId ops.length ++ parts.flatten).length + trailerLen ≤ maxValueBytes) :
    encodeTransaction txId ops = .ok (header txId ops.length ++ parts.flatten ++
      leBytes 4 (crc32 (header txId ops.length ++ parts.flatten))) := by
  have hmax : maxOps = 1024 := rfl
  rw [encodeTransaction, if_neg (by omega)]
  have hloop : ∀ (ops : List RelOp) (parts : List Bytes) (start : Bytes), ops.mapM encodeOp = .ok parts →
      (start ++ parts.flatten).length + trailerLen ≤ maxValueBytes →
      ops.foldlM (fun out op => do
        let encoded ← encodeOp op
        if maxValueBytes < (out ++ encoded).length + trailerLen then
          .error (.invalidInput
            s!"encoded relational transaction exceeds the {maxValueBytes}-byte backing value limit")
        else .ok (out ++ encoded)) start = .ok (start ++ parts.flatten) := by
    intro ops
    induction ops with
    | nil =>
      intro parts start hparts _
      obtain rfl : parts = [] := (Except.ok.inj hparts).symm
      rw [List.flatten_nil, List.append_nil]
      rfl
    | cons op ops ih =>
      intro parts start hparts hlimit
      rw [Checked.mapM_eq_ok] at hparts
      cases hparts with
      | @cons _ encoded _ parts hencoded hrest =>
        rw [List.flatten_cons, ← List.append_assoc] at hlimit ⊢
        have hstep : ¬ maxValueBytes < (start ++ encoded).length + trailerLen := by
          rw [List.length_append] at hlimit
          omega
        rw [List.foldlM_cons, hencoded, Checked.ok_bind, if_neg hstep, Checked.ok_bind]
        exact ih parts (start ++ encoded) (Checked.mapM_eq_ok.2 hrest) hlimit
  show (do
    let out ← ops.foldlM _ (header txId ops.length)
    Except.ok (out ++ leBytes 4 (crc32 out))) = _
  rw [hloop ops parts (header txId ops.length) hparts hlimit, Checked.ok_bind]

/-- **Accepted bytes are canonical**: encoding the decoded transaction gives them back. -/
theorem encodeTransaction_decode {ops : List RelOp} (hlimit : bytes.length ≤ maxValueBytes)
    (h : decodeTransaction bytes txId = .ok ops) : encodeTransaction txId ops = .ok bytes := by
  obtain ⟨-, hcount, parts, hparts, rfl⟩ := decodeTransaction_eq_ok h
  rw [@List.length_append _ (header txId ops.length ++ parts.flatten), leBytes_length] at hlimit
  exact encodeTransaction_of_parts hcount hparts hlimit

end DbLab.Relational
