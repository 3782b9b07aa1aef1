import DbLab.Lsm.Guarded

/-!
# What the parsers of the files ask for

Step by step each parser does what its codec says (`Parse.Covers`): the accesses lie inside the bytes that a check
in front of them has measured, and the copies are parts of the file. The two numbers that size a collection
unchecked are asked for as they stand, so that the parsing is bounded exactly when they are (`bounded_parsing`).
-/

namespace DbLab.Lsm.Guarded

open Parse (ofExcept withCapacity expect sub num copy)

/-! ### What the parsers report -/

/-- The errors of a parser: damage, or a version that is not read. -/
def Reported : DbError → Prop
  | .corruption _ _ => True
  | .unsupportedVersion _ _ _ => True
  | _ => False

section Manifests

variable {β : Type} {bound offset distance limit formatVersion m n : ℕ} {bytes front : Bytes} {reason : String} {p q : Prop}
  [Decidable p] [Decidable q] {e : DbError}

theorem failWhen_reported {e' : DbError} (h : Reported e) (he : failWhen p e = .error e') : Reported e' := by
  unfold failWhen checkWhen at he
  split_ifs at he
  cases he
  exact h

theorem covers_guardWith (h : Reported e) : Parse.Covers Reported bound (guardWith p e) (failWhen p e) :=
  .ofExcept fun _ he => failWhen_reported h he

theorem covers_plus (h : m + n < u64Limit) : Parse.Covers Reported bound (plus m n) (.ok (m + n)) :=
  Parse.covers_lift (addAt_eq h)

theorem covers_guardPast (h : offset + distance < u64Limit) :
    Parse.Covers Reported bound (guardPast p offset distance reason)
      (failWhen p (corruptionAt (offset + distance) reason)) := by
  unfold guardPast failWhen checkWhen
  split_ifs
  · exact (covers_plus h).step (.ofExcept (by rintro _ ⟨⟩; trivial))
  · exact .pure ()

theorem covers_checkedAdd (h : Reported e) : Parse.Covers Reported bound (ofExcept (checkedAdd m n e)) (checkedAdd m n e) := by
  refine .ofExcept fun e' he => ?_
  unfold checkedAdd at he
  split_ifs at he
  cases he
  exact h

/-- A sum that does not overflow. -/
theorem covers_checkedAdd_ok (h : m + n < u64Limit) :
    Parse.Covers Reported bound (ofExcept (checkedAdd m n e)) (.ok (m + n)) := by
  rw [checkedAdd, if_pos h]
  exact .ofExcept (by rintro _ ⟨⟩)

theorem failWhen_or : failWhen (p ∨ q) e = failWhen p e >>= fun _ => failWhen q e := by
  unfold failWhen checkWhen
  by_cases hp : p
  · rw [if_pos hp, if_pos (.inl hp)]
    rfl
  · by_cases hq : q
    · rw [if_neg hp, if_pos hq, if_pos (.inr hq)]
      rfl
    · rw [if_neg hp, if_neg hq, if_neg (not_or.2 ⟨hp, hq⟩)]
      rfl

/-! ### The manifest -/

theorem covers_checkManifestHeader {headerLen reservedAt : ℕ} {f : Unit → Parse DbError β} {y : Except DbError β}
    (hlen : headerLen ≤ bytes.length) (hreserved : headerLen - 4 = reservedAt + n) (hlow : 20 ≤ headerLen)
    (hf : Parse.Covers Reported bound (f ()) y) :
    Parse.Covers Reported bound (checkManifestHeader bytes headerLen reservedAt reason >>= f) (do
      failWhen (leNat (slice bytes 10 2) ≠ headerLen ∨ ¬ allZero (slice bytes 12 4) ∨
        ¬ allZero (slice bytes reservedAt n)) (.corruption 10 reason)
      failWhen (crc32 (slice bytes 0 (headerLen - 4)) ≠ leNat (slice bytes (headerLen - 4) 4))
        (.corruption (headerLen - 4) "manifest header checksum mismatch")
      y) := by
  have hcheck : Parse.Covers Reported bound (checkManifestHeader bytes headerLen reservedAt reason) (do
      failWhen (leNat (slice bytes 10 2) ≠ headerLen ∨ ¬ allZero (slice bytes 12 4) ∨
        ¬ allZero (slice bytes reservedAt n)) (.corruption 10 reason)
      failWhen (crc32 (slice bytes 0 (headerLen - 4)) ≠ leNat (slice bytes (headerLen - 4) 4))
        (.corruption (headerLen - 4) "manifest header checksum mismatch")) := by
    unfold checkManifestHeader
    refine (Parse.covers_num (by omega)).step ?_
    refine (Parse.covers_sub (n := 4) rfl (by omega)).step ?_
    refine (Parse.covers_sub hreserved (by omega)).step ?_
    refine (covers_guardWith (by trivial)).bind fun _ _ => ?_
    refine (Parse.covers_num (by omega)).step ?_
    refine (Parse.covers_sub (zero_add _).symm (by omega)).step ?_
    exact covers_guardWith (by trivial)
  have h := hcheck.bind (g := fun _ => y) fun _ _ => hf
  rwa [bind_assoc] at h

theorem covers_readManifestHeader (h : manifestHeaderLenV1 + 4 ≤ bytes.length) :
    Parse.Covers Reported bound (readManifestHeader bytes) (Lsm.readManifestHeader bytes) := by
  have hlens : manifestHeaderLenV1 = 64 ∧ manifestHeaderLenV4 = 80 ∧ manifestHeaderLen = 88 := ⟨rfl, rfl, rfl⟩
  unfold readManifestHeader Lsm.readManifestHeader
  refine (Parse.covers_num (by omega)).step ?_
  dsimp only
  split_ifs
  · exact covers_checkManifestHeader (by omega) rfl (by decide) (.pure _)
  · rw [failWhen_or, bind_assoc]
    refine (covers_guardWith (by trivial)).bind fun _ hlong => ?_
    rw [failWhen_eq_ok] at hlong
    refine covers_checkManifestHeader (by omega) rfl (by decide) ?_
    refine (Parse.covers_num (by omega)).step ?_
    exact (Parse.covers_num (by omega)).step (.pure _)
  · rw [failWhen_or, bind_assoc]
    refine (covers_guardWith (by trivial)).bind fun _ hlong => ?_
    rw [failWhen_eq_ok] at hlong
    refine covers_checkManifestHeader (by omega) rfl (by decide) ?_
    refine (Parse.covers_num (by omega)).step ?_
    refine (Parse.covers_num (by omega)).step ?_
    exact (Parse.covers_num (by omega)).step (.pure _)
  · rw [failWhen_or, bind_assoc]
    refine (covers_guardWith (by trivial)).bind fun _ hlong => ?_
    rw [failWhen_eq_ok] at hlong
    refine covers_checkManifestHeader (by omega) rfl (by decide) ?_
    refine (Parse.covers_num (by omega)).step ?_
    refine (Parse.covers_num (by omega)).step ?_
    refine (Parse.covers_num (by omega)).step ?_
    exact (Parse.covers_num (by omega)).step (.pure _)
  · exact .ofExcept (by rintro _ ⟨⟩; trivial)

/-- The layout, and where it puts the lengths of the keys. -/
theorem covers_descriptorLayout
    (hfront : front.length = if formatVersion ≤ manifestFormatVersionV2 then legacyDescriptorPrefixLen else descriptorPrefixLen)
    (hfits : offset + front.length < u64Limit) :
    Parse.Covers Reported bound (descriptorLayout formatVersion offset front) (Lsm.descriptorLayout formatVersion offset front) := by
  have hlens : legacyDescriptorPrefixLen = 40 ∧ descriptorPrefixLen = 48 := ⟨rfl, rfl⟩
  unfold descriptorLayout Lsm.descriptorLayout
  split_ifs at hfront ⊢
  · exact .pure _
  · refine (Parse.covers_num (by omega)).step ?_
    refine (covers_guardPast (by omega)).bind fun _ _ => ?_
    exact (Parse.covers_num (by omega)).step (.pure _)

theorem descriptorLayout_bounds {layout : ℕ × ℕ × ℕ}
    (h : Lsm.descriptorLayout formatVersion offset front = .ok layout)
    (hfront : front.length = if formatVersion ≤ manifestFormatVersionV2 then legacyDescriptorPrefixLen else descriptorPrefixLen) :
    32 ≤ layout.2.1 ∧ layout.2.1 + 4 ≤ layout.2.2 ∧ layout.2.2 + 4 ≤ front.length := by
  have hlens : legacyDescriptorPrefixLen = 40 ∧ descriptorPrefixLen = 48 := ⟨rfl, rfl⟩
  unfold Lsm.descriptorLayout at h
  split_ifs at h hfront
  · cases h
    dsimp only
    omega
  · rw [Checked.bind_eq_ok] at h
    obtain ⟨_, -, h⟩ := h
    cases h
    dsimp only
    omega

/-- **A descriptor** is decoded as the codec says. -/
theorem covers_decodeDescriptor (hlimit : limit ≤ bytes.length) (hbound : bytes.length ≤ bound) :
    Parse.Covers Reported bound (decodeDescriptor bytes offset limit formatVersion)
      (readDescriptor bytes offset limit formatVersion) := by
  unfold decodeDescriptor readDescriptor
  dsimp only
  refine (covers_checkedAdd (by trivial)).bind fun frontEnd hfrontEnd => ?_
  rw [checkedAdd_eq_ok] at hfrontEnd
  obtain ⟨hfits, rfl⟩ := hfrontEnd
  refine (covers_guardWith (by trivial)).bind fun _ hwithin => ?_
  rw [failWhen_eq_ok] at hwithin
  refine (Parse.covers_sub rfl (by omega)).step ?_
  have hfront := @slice_length bytes offset (if formatVersion ≤ manifestFormatVersionV2 then legacyDescriptorPrefixLen
    else descriptorPrefixLen) (by omega)
  refine (covers_descriptorLayout hfront (by omega)).bind fun layout hlayout => ?_
  obtain ⟨hlow, hmid, hhigh⟩ := descriptorLayout_bounds hlayout hfront
  obtain ⟨level, smallestAt, largestAt⟩ := layout
  dsimp only at hlow hmid hhigh ⊢
  generalize (if formatVersion ≤ manifestFormatVersionV2 then legacyDescriptorPrefixLen else descriptorPrefixLen) =
    frontLen at *
  refine (Parse.covers_num (by omega)).step ?_
  refine (Parse.covers_num (by omega)).step ?_
  refine (covers_guardPast (by omega)).bind fun _ _ => ?_
  refine (covers_guardPast (by omega)).bind fun _ _ => ?_
  refine (covers_checkedAdd (by trivial)).bind fun smallestEnd hsmallestEnd => ?_
  obtain ⟨-, rfl⟩ := checkedAdd_eq_ok.1 hsmallestEnd
  refine (covers_checkedAdd (by trivial)).bind fun largestEnd hlargestEnd => ?_
  obtain ⟨-, rfl⟩ := checkedAdd_eq_ok.1 hlargestEnd
  refine (covers_checkedAdd (by trivial)).bind fun descriptorEnd hdescriptorEnd => ?_
  obtain ⟨-, rfl⟩ := checkedAdd_eq_ok.1 hdescriptorEnd
  refine (covers_guardWith (by trivial)).bind fun _ hinside => ?_
  rw [failWhen_eq_ok] at hinside
  refine (Parse.covers_num (by omega)).step ?_
  refine (Parse.covers_sub (Nat.add_sub_of_le (by omega)).symm (by omega)).step ?_
  refine (covers_guardWith (by trivial)).bind fun _ _ => ?_
  refine (Parse.covers_num (by omega)).step ?_
  refine (Parse.covers_num (by omega)).step ?_
  refine (Parse.covers_num (by omega)).step ?_
  refine (Parse.covers_num (by omega)).step ?_
  refine (Parse.covers_copy rfl (by omega) (by omega)).step ?_
  refine (Parse.covers_copy rfl (by omega) (by omega)).step ?_
  refine (covers_guardWith (by trivial)).bind fun _ _ => ?_
  exact .pure _

theorem covers_readDescriptors (hlimit : limit ≤ bytes.length) (hbound : bytes.length ≤ bound) (count : ℕ) :
    Parse.Covers Reported bound (readDescriptors bytes limit formatVersion count offset)
      (Lsm.readDescriptors bytes limit formatVersion count offset) := by
  induction count generalizing offset with
  | zero => exact .pure _
  | succ count ih =>
    rw [readDescriptors, Lsm.readDescriptors]
    refine (covers_decodeDescriptor hlimit hbound).bind fun first _ => ?_
    exact ih.bind fun rest _ => .pure _

/-- A manifest whose header, extent and checksum are accepted. -/
structure ManifestFramed (manifestId : ℕ) (bytes : Bytes) (header : ManifestHeader) : Prop where
  length : manifestHeaderLenV1 + 4 ≤ bytes.length
  magic : slice bytes 0 8 = manifestMagic
  accepted : Lsm.readManifestHeader bytes = .ok header
  encodedId : leNat (slice bytes 16 8) = manifestId
  extent : header.headerLen + leNat (slice bytes 40 8) + 4 = bytes.length
  fits : bytes.length < u64Limit
  crc : crc32 (bytes.take (bytes.length - 4)) = leNat (slice bytes (bytes.length - 4) 4)

/-- What the codec reads in front of the descriptors. -/
def manifestFront (manifestId : ℕ) (bytes : Bytes) : Except DbError ManifestFront := do
  failWhen (bytes.length < manifestHeaderLenV1 + 4) (corruption "truncated manifest")
  failWhen (slice bytes 0 8 ≠ manifestMagic) (corruption "invalid manifest magic")
  let header ← Lsm.readManifestHeader bytes
  failWhen (leNat (slice bytes 16 8) ≠ manifestId) (.corruption 16 "manifest id does not match filename/CURRENT")
  let bodyEnd ← checkedAdd header.headerLen (leNat (slice bytes 40 8))
    (.corruption 40 "manifest extent arithmetic overflowed usize")
  let expectedLen ← checkedAdd bodyEnd 4 (.corruption 40 "manifest extent arithmetic overflowed usize")
  failWhen (expectedLen ≠ bytes.length) (.corruption 40 "manifest body length does not match physical file")
  failWhen (crc32 (bytes.take (bytes.length - 4)) ≠ leNat (slice bytes (bytes.length - 4) 4))
    (.corruption (bytes.length - 4) "manifest file checksum mismatch")
  .ok ⟨header, leNat (slice bytes 8 2), leNat (slice bytes 24 8), leNat (slice bytes 32 8), bytes.length - 4⟩

variable {manifestId : ℕ}

theorem manifestFront_eq_ok {front : ManifestFront} : manifestFront manifestId bytes = .ok front ↔
    ∃ header, ManifestFramed manifestId bytes header ∧
      front = ⟨header, leNat (slice bytes 8 2), leNat (slice bytes 24 8), leNat (slice bytes 32 8), bytes.length - 4⟩ := by
  unfold manifestFront
  simp only [Checked.bind_eq_ok, failWhen_eq_ok, checkedAdd_eq_ok, not_not, not_lt, exists_const, Except.ok.injEq]
  constructor
  · rintro ⟨hlen, hmagic, header, hheader, hid, _, ⟨-, rfl⟩, _, ⟨hfits, rfl⟩, hextent, hcrc, rfl⟩
    exact ⟨header, ⟨hlen, hmagic, hheader, hid, hextent, hextent ▸ hfits, hcrc⟩, rfl⟩
  · rintro ⟨header, ⟨hlen, hmagic, hheader, hid, hextent, hfits, hcrc⟩, rfl⟩
    exact ⟨hlen, hmagic, header, hheader, hid, _, ⟨by omega, rfl⟩, _, ⟨by omega, rfl⟩, hextent, hcrc, rfl⟩

theorem readManifestBytes_front : readManifestBytes manifestId bytes = (do
    let front ← manifestFront manifestId bytes
    let read ← Lsm.readDescriptors bytes front.crcOffset front.formatVersion front.tableCount front.header.headerLen
    failWhen (read.2 ≠ front.crcOffset) (.corruption read.2 "manifest contains unexplained descriptor bytes")
    validateVersionSet (front.versionSet manifestId read.1)
    .ok (front.versionSet manifestId read.1)) := by
  simp only [readManifestBytes, manifestFront, bind_assoc, Checked.ok_bind]
  rfl

theorem covers_readManifestFront :
    Parse.Covers Reported bound (readManifestFront manifestId bytes) (manifestFront manifestId bytes) := by
  unfold readManifestFront manifestFront
  refine (covers_guardWith (by trivial)).bind fun _ hlong => ?_
  rw [failWhen_eq_ok, not_lt] at hlong
  have hlen : manifestHeaderLenV1 = 64 := rfl
  refine (Parse.covers_sub (n := 8) rfl (by omega)).step ?_
  refine (covers_guardWith (by trivial)).bind fun _ _ => ?_
  refine (covers_readManifestHeader hlong).bind fun header _ => ?_
  refine (Parse.covers_num (by omega)).step ?_
  refine (Parse.covers_num (by omega)).step ?_
  refine (covers_guardWith (by trivial)).bind fun _ _ => ?_
  refine (Parse.covers_num (by omega)).step ?_
  refine (Parse.covers_num (by omega)).step ?_
  refine (Parse.covers_num (by omega)).step ?_
  refine (covers_checkedAdd (by trivial)).bind fun bodyEnd _ => ?_
  refine (covers_checkedAdd (by trivial)).bind fun expectedLen _ => ?_
  refine (covers_guardWith (by trivial)).bind fun _ _ => ?_
  dsimp only
  refine (Parse.covers_num (by omega)).step ?_
  refine (Parse.covers_sub (zero_add _).symm (by omega)).step ?_
  refine (covers_guardWith (by trivial)).bind fun _ _ => ?_
  exact .pure _

theorem validateTables_reported {tables : List SstableDescriptor} {previousId previousDurable level1 : ℕ}
    (h : validateTables tables previousId previousDurable level1 = .error e) : Reported e := by
  induction tables generalizing previousId previousDurable level1 e with
  | nil => cases h
  | cons d tables ih =>
    rw [validateTables] at h
    refine Checked.error_of_bind (fun _ => failWhen_reported (by trivial)) (fun _ e h => ?_) h
    refine Checked.error_of_bind (fun _ => failWhen_reported (by trivial)) (fun _ e h => ?_) h
    refine Checked.error_of_bind (fun _ => failWhen_reported (by trivial)) (fun _ e h => ?_) h
    refine Checked.error_of_bind (fun _ => failWhen_reported (by trivial)) (fun _ e h => ?_) h
    exact ih h

theorem validateVersionSet_reported {version : VersionSet} (h : validateVersionSet version = .error e) : Reported e := by
  unfold validateVersionSet at h
  refine Checked.error_of_bind (fun _ => failWhen_reported (by trivial)) (fun _ e h => ?_) h
  refine Checked.error_of_bind (fun _ => failWhen_reported (by trivial)) (fun _ e h => ?_) h
  refine Checked.error_of_bind (fun _ => failWhen_reported (by trivial)) (fun _ e h => ?_) h
  refine Checked.error_of_bind (fun _ => failWhen_reported (by trivial)) (fun _ e h => ?_) h
  refine Checked.error_of_bind (fun _ => validateTables_reported) (fun _ e h => ?_) h
  refine Checked.error_of_bind (fun _ => failWhen_reported (by trivial)) (fun _ e h => ?_) h
  refine Checked.error_of_bind (fun _ => failWhen_reported (by trivial)) (fun _ e h => ?_) h
  exact failWhen_reported (by trivial) h

/-- **The manifest** is read as the codec says. -/
theorem covers_readManifest (hbound : bytes.length ≤ bound)
    (hcount : ∀ header, ManifestFramed manifestId bytes header → leNat (slice bytes 32 8) ≤ bound) :
    Parse.Covers Reported bound (readManifest manifestId bytes) (readManifestBytes manifestId bytes) := by
  rw [readManifest, readManifestBytes_front]
  refine covers_readManifestFront.bind fun front hfront => ?_
  obtain ⟨header, hframed, rfl⟩ := manifestFront_eq_ok.1 hfront
  refine (Parse.covers_withCapacity (hcount header hframed)).step ?_
  refine (covers_readDescriptors (Nat.sub_le _ _) hbound _).bind fun read _ => ?_
  refine (covers_guardWith (by trivial)).bind fun _ _ => ?_
  refine Parse.Covers.bind (.ofExcept fun e he => validateVersionSet_reported he) fun _ _ => ?_
  exact .pure _

end Manifests

section Tables

variable {bound offset distance limit m n : ℕ} {bytes key : Bytes} {overflow reason : String} {p : Prop}
  [Decidable p] {e : DbError}

/-! ### Tables -/

theorem covers_guardChecked (h : offset + distance < u64Limit) :
    Parse.Covers Reported bound (guardChecked p offset distance overflow reason)
      (failWhen p (corruptionAt (offset + distance) reason)) := by
  unfold guardChecked failWhen checkWhen
  split_ifs
  · exact (covers_checkedAdd_ok h).step (.ofExcept (by rintro _ ⟨⟩; trivial))
  · exact .pure ()

theorem covers_parseHeader : Parse.Covers Reported bound (parseHeader bytes) (Lsm.parseHeader bytes) := by
  unfold parseHeader Lsm.parseHeader
  refine (covers_guardWith (by trivial)).bind fun _ hlen => ?_
  have hlong : bytes.length = 64 := not_not.1 (failWhen_eq_ok.1 hlen)
  refine (Parse.covers_sub (n := 8) rfl (by omega)).step ?_
  refine (covers_guardWith (by trivial)).bind fun _ _ => ?_
  refine (Parse.covers_num (by omega)).step ?_
  refine (covers_guardWith (by trivial)).bind fun _ _ => ?_
  refine (Parse.covers_num (by omega)).step ?_
  refine (covers_guardWith (by trivial)).bind fun _ _ => ?_
  refine (Parse.covers_sub (n := 4) rfl (by omega)).step ?_
  refine (Parse.covers_sub (n := 4) rfl (by omega)).step ?_
  refine (covers_guardWith (by trivial)).bind fun _ _ => ?_
  refine (Parse.covers_num (by omega)).step ?_
  refine (Parse.covers_sub (n := 60) rfl (by omega)).step ?_
  refine (covers_guardWith (by trivial)).bind fun _ _ => ?_
  refine (Parse.covers_num (by omega)).step ?_
  refine (Parse.covers_num (by omega)).step ?_
  refine (Parse.covers_num (by omega)).step ?_
  refine (Parse.covers_num (by omega)).step ?_
  exact (Parse.covers_num (by omega)).step (.pure _)

theorem covers_parseFooter (hfits : offset + 64 < u64Limit) :
    Parse.Covers Reported bound (parseFooter bytes offset) (Lsm.parseFooter bytes offset) := by
  unfold parseFooter Lsm.parseFooter
  rw [failWhen_or, bind_assoc]
  refine (covers_guardWith (by trivial)).bind fun _ hlen => ?_
  have hlong : bytes.length = 64 := not_not.1 (failWhen_eq_ok.1 hlen)
  refine (Parse.covers_sub (n := 8) rfl (by omega)).step ?_
  refine (covers_guardWith (by trivial)).bind fun _ _ => ?_
  refine (Parse.covers_num (by omega)).step ?_
  refine (covers_guardWith (by trivial)).bind fun _ _ => ?_
  refine (Parse.covers_num (by omega)).step ?_
  refine (Parse.covers_sub (n := 4) rfl (by omega)).step ?_
  refine (covers_guardPast (by omega)).bind fun _ _ => ?_
  refine (Parse.covers_num (by omega)).step ?_
  refine (Parse.covers_sub (n := 60) rfl (by omega)).step ?_
  refine (covers_guardPast (by omega)).bind fun _ _ => ?_
  refine (Parse.covers_num (by omega)).step ?_
  refine (Parse.covers_num (by omega)).step ?_
  refine (Parse.covers_num (by omega)).step ?_
  refine (Parse.covers_num (by omega)).step ?_
  refine (Parse.covers_num (by omega)).step ?_
  exact (Parse.covers_num (by omega)).step (.pure _)

theorem canonicalBitCount_reported {count : ℕ} (h : canonicalBitCount count = .error e) : Reported e := by
  unfold canonicalBitCount checkedAdd at h
  split_ifs at h
  · cases h
    trivial
  · cases h
    trivial
  · cases h
  · cases h
    trivial

/-- **The filter** is decoded as its codec says. -/
theorem covers_decodeBloom {count : ℕ} (hfits : offset + bytes.length < u64Limit) (hbound : bytes.length ≤ bound) :
    Parse.Covers Reported bound (decodeBloom bytes offset count) (BloomFilter.decode bytes offset count) := by
  have hlens : filterHeaderLen = 40 ∧ filterTrailerLen = 4 := ⟨rfl, rfl⟩
  have hlimit := u64Limit_eq
  unfold decodeBloom BloomFilter.decode
  refine (covers_guardWith (by trivial)).bind fun _ hlong => ?_
  rw [failWhen_eq_ok] at hlong
  refine (Parse.covers_sub (n := 8) rfl (by omega)).step ?_
  refine (covers_guardWith (by trivial)).bind fun _ _ => ?_
  refine (Parse.covers_num (by omega)).step ?_
  refine (covers_guardWith (by trivial)).bind fun _ _ => ?_
  refine (Parse.covers_num (by omega)).step ?_
  refine (covers_guardPast (by omega)).bind fun _ _ => ?_
  refine (Parse.covers_num (by omega)).step ?_
  refine (covers_guardPast (by omega)).bind fun _ _ => ?_
  refine (Parse.covers_num (by omega)).step ?_
  refine (covers_guardPast (by omega)).bind fun _ _ => ?_
  refine (Parse.covers_num (by omega)).step ?_
  refine (covers_guardPast (by omega)).bind fun _ _ => ?_
  refine (Parse.covers_num (by omega)).step ?_
  refine (Parse.covers_num (by omega)).step ?_
  refine (Parse.covers_num (by omega)).step ?_
  refine (Parse.covers_num (by omega)).step ?_
  refine (Parse.covers_sub (n := 36) rfl (by omega)).step ?_
  refine (covers_guardPast (by omega)).bind fun _ _ => ?_
  refine (covers_guardPast (by omega)).bind fun _ _ => ?_
  refine Parse.Covers.bind (.ofExcept fun _ he => canonicalBitCount_reported he) fun _ _ => ?_
  refine (covers_guardPast (by omega)).bind fun _ _ => ?_
  refine (covers_guardPast (by omega)).bind fun _ _ => ?_
  have hpayload : leNat (slice bytes 32 4) < 256 ^ 4 := by
    have hlt := leNat_lt (slice bytes 32 4)
    rwa [slice_length (by omega)] at hlt
  refine (covers_checkedAdd_ok (by omega)).step ?_
  refine (covers_checkedAdd_ok (by omega)).step ?_
  refine (covers_guardWith (by trivial)).bind fun _ hexact => ?_
  have hlen := not_not.1 (failWhen_eq_ok.1 hexact)
  refine (Parse.covers_num (by omega)).step ?_
  refine (Parse.covers_sub (zero_add _).symm (by omega)).step ?_
  refine (covers_guardChecked (by omega)).bind fun _ _ => ?_
  exact (Parse.covers_copy rfl (by omega) (by omega)).step (.pure _)

/-- **A probe** reads the bits of a well-formed filter. -/
theorem covers_mayContain {filter : BloomFilter} (h : filter.WellFormed) :
    Parse.Covers Reported bound (mayContain filter key) (.ok (filter.mayContain key)) := by
  have hpos : filter.bitCount ≠ 0 := (BloomFilter.canonicalBitCount_spec h.canonical).1.ne'
  have hprobes : ∀ positions : List ℕ, (∀ bit ∈ positions, bit / 8 < filter.bits.length) →
      Parse.Covers Reported bound (positions.foldr (fun bit rest =>
        if filter.bits.length ≤ bit / 8 then expect none
        else if BloomFilter.hasBit filter.bits bit then rest
        else pure false) (pure true)) (.ok (positions.all fun bit => BloomFilter.hasBit filter.bits bit)) := by
    intro positions hin
    induction positions with
    | nil => exact .pure true
    | cons bit positions ih =>
      obtain ⟨hbit, hrest⟩ := List.forall_mem_cons.1 hin
      rw [List.foldr_cons, if_neg hbit.not_ge, List.all_cons]
      cases BloomFilter.hasBit filter.bits bit with
      | true => exact ih hrest
      | false => exact .pure false
  rw [mayContain, if_neg hpos]
  exact hprobes _ fun bit hbit => (h.probe_lt bit hbit).2

theorem covers_lacksKey {filter : BloomFilter} (h : filter.WellFormed) (index : List IndexEntry) :
    Parse.Covers Reported bound (lacksKey filter index) (.ok (index.any fun e => ! filter.mayContain e.key)) := by
  induction index with
  | nil => exact .pure false
  | cons e index ih =>
    rw [lacksKey, List.any_cons]
    refine (covers_mayContain h).step ?_
    cases filter.mayContain e.key with
    | true => exact ih
    | false => exact .pure true

theorem covers_decodeKind {encoded : ℕ} (h : offset + distance < u64Limit) :
    Parse.Covers Reported bound (decodeKind encoded offset distance) (EntryKind.decode encoded (offset + distance)) := by
  refine (covers_plus h).step (.ofExcept fun e he => ?_)
  unfold EntryKind.decode at he
  split_ifs at he
  cases he
  trivial

theorem covers_extentAdd : Parse.Covers Reported bound (ofExcept (extentAdd m n offset)) (extentAdd m n offset) :=
  covers_checkedAdd trivial

theorem covers_copyValue_put {start stop : ℕ} (h : stop = start + n) (hle : stop ≤ bytes.length) (hbound : n ≤ bound) :
    Parse.Covers Reported bound (copyValue .put bytes start stop) (.ok (some (slice bytes start n))) :=
  (Parse.covers_copy h hle hbound).step (.pure _)

/-- **A record** is decoded as its codec says. -/
theorem covers_decodeRecord (hbound : bytes.length ≤ bound) :
    Parse.Covers Reported bound (decodeRecord bytes limit offset) (TableImage.decodeTableRecord bytes limit offset) := by
  have hlen : tableRecordHeaderLen = 28 := rfl
  unfold decodeRecord TableImage.decodeTableRecord Lsm.decodeRecord
  simp only [bind_assoc, Checked.ok_bind]
  refine covers_extentAdd.bind fun headerEnd hheaderEnd => ?_
  obtain ⟨hfits, rfl⟩ := checkedAdd_eq_ok.1 hheaderEnd
  refine (covers_guardWith (by trivial)).bind fun _ hwithin => ?_
  rw [failWhen_eq_ok] at hwithin
  refine (Parse.covers_sub rfl (by omega)).step ?_
  have hheader := @slice_length bytes offset tableRecordHeaderLen (by omega)
  refine (Parse.covers_sub (n := 4) rfl (by omega)).step ?_
  refine (Parse.covers_num (by omega)).step ?_
  refine (Parse.covers_sub (n := 2) rfl (by omega)).step ?_
  refine (covers_guardWith (by trivial)).bind fun _ _ => ?_
  refine (Parse.covers_num (by omega)).step ?_
  refine (Parse.covers_sub (n := 24) rfl (by omega)).step ?_
  refine (covers_guardPast (by omega)).bind fun _ _ => ?_
  refine (Parse.covers_num (by omega)).step ?_
  refine (covers_decodeKind (by omega)).bind fun kind _ => ?_
  refine (Parse.covers_num (by omega)).step ?_
  refine (Parse.covers_num (by omega)).step ?_
  refine (Parse.covers_num (by omega)).step ?_
  refine (covers_guardWith (by trivial)).bind fun _ _ => ?_
  refine (covers_guardPast (by omega)).bind fun _ _ => ?_
  refine covers_extentAdd.bind fun keyEnd hkeyEnd => ?_
  obtain ⟨hkeyFits, rfl⟩ := checkedAdd_eq_ok.1 hkeyEnd
  refine covers_extentAdd.bind fun payloadEnd hpayloadEnd => ?_
  obtain ⟨-, rfl⟩ := checkedAdd_eq_ok.1 hpayloadEnd
  refine covers_extentAdd.bind fun recordEnd hrecordEnd => ?_
  obtain ⟨-, rfl⟩ := checkedAdd_eq_ok.1 hrecordEnd
  refine (covers_guardWith (by trivial)).bind fun _ hinside => ?_
  rw [failWhen_eq_ok] at hinside
  refine (Parse.covers_num (by omega)).step ?_
  refine (Parse.covers_sub (Nat.add_sub_of_le (by omega)).symm (by omega)).step ?_
  refine (covers_guardWith (by trivial)).bind fun _ _ => ?_
  refine (covers_plus hkeyFits).step ?_
  refine (Parse.covers_copy rfl (by omega) (by omega)).step ?_
  cases kind with
  | put => exact (covers_copyValue_put (by rfl) (by omega) (by omega)).step (.pure _)
  | delete => exact (Parse.Covers.pure none).step (.pure _)

/-- **An index entry** is decoded as its codec says. -/
theorem covers_decodeIndexEntry (hbound : bytes.length ≤ bound) :
    Parse.Covers Reported bound (decodeIndexEntry bytes limit offset) (Lsm.decodeIndexEntry bytes limit offset) := by
  have hlen : indexPrefixLen = 24 := rfl
  unfold decodeIndexEntry Lsm.decodeIndexEntry
  refine covers_extentAdd.bind fun prefixEnd hprefixEnd => ?_
  obtain ⟨hfits, rfl⟩ := checkedAdd_eq_ok.1 hprefixEnd
  refine (covers_guardWith (by trivial)).bind fun _ hwithin => ?_
  rw [failWhen_eq_ok] at hwithin
  refine (Parse.covers_sub rfl (by omega)).step ?_
  have hfront := @slice_length bytes offset indexPrefixLen (by omega)
  refine (Parse.covers_num (by omega)).step ?_
  refine (Parse.covers_num (by omega)).step ?_
  refine (Parse.covers_sub (n := 2) rfl (by omega)).step ?_
  refine (covers_guardWith (by trivial)).bind fun _ _ => ?_
  refine (Parse.covers_num (by omega)).step ?_
  refine (covers_decodeKind (by omega)).bind fun kind _ => ?_
  refine (Parse.covers_num (by omega)).step ?_
  refine (Parse.covers_num (by omega)).step ?_
  refine covers_extentAdd.bind fun keyEnd hkeyEnd => ?_
  obtain ⟨-, rfl⟩ := checkedAdd_eq_ok.1 hkeyEnd
  refine covers_extentAdd.bind fun entryEnd hentryEnd => ?_
  obtain ⟨-, rfl⟩ := checkedAdd_eq_ok.1 hentryEnd
  refine (covers_guardWith (by trivial)).bind fun _ hinside => ?_
  rw [failWhen_eq_ok] at hinside
  refine (Parse.covers_num (by omega)).step ?_
  refine (Parse.covers_sub (Nat.add_sub_of_le (by omega)).symm (by omega)).step ?_
  refine (covers_guardWith (by trivial)).bind fun _ _ => ?_
  exact (Parse.covers_copy rfl (by omega) (by omega)).step (.pure _)

/-- A table whose header, footer and whole checksum are accepted. -/
structure TableFramed (descriptor : SstableDescriptor) (bytes : Bytes) (header : TableHeader) (footer : TableFooter) :
    Prop where
  fileBytes : bytes.length = descriptor.fileBytes
  length : sstableHeaderLen + sstableFooterLen ≤ bytes.length
  accepted : Lsm.parseHeader (slice bytes 0 sstableHeaderLen) = .ok header
  described : header.tableId = descriptor.tableId ∧ header.entryCount = descriptor.entryCount
  tail : header.footerOffset + sstableFooterLen = bytes.length
  fits : bytes.length < u64Limit
  footerAccepted : Lsm.parseFooter (slice bytes header.footerOffset sstableFooterLen) header.footerOffset = .ok footer
  agrees : footer.formatVersion = header.formatVersion ∧ footer.tableId = header.tableId ∧
    footer.entryCount = header.entryCount ∧ footer.indexOffset = header.indexOffset ∧
    footer.footerOffset = header.footerOffset ∧ footer.durableSequence = descriptor.durableSequence
  crc : crc32 (bytes.take header.footerOffset) = footer.wholeCrc
  ordered : header.dataOffset ≤ header.indexOffset ∧ header.indexOffset ≤ header.footerOffset

/-- What the codec reads in front of the filter. -/
def tableFront (descriptor : SstableDescriptor) (bytes : Bytes) : Except DbError TableHeader := do
  failWhen (bytes.length ≠ descriptor.fileBytes) (corruption
    s!"SSTable {descriptor.tableId} length mismatch: manifest {descriptor.fileBytes}, file {bytes.length}")
  failWhen (bytes.length < sstableHeaderLen + sstableFooterLen) (corruption "truncated SSTable header/footer")
  let header ← Lsm.parseHeader (slice bytes 0 sstableHeaderLen)
  failWhen (header.tableId ≠ descriptor.tableId ∨ header.entryCount ≠ descriptor.entryCount)
    (corruption "SSTable header does not match manifest descriptor")
  let footerEnd ← checkedAdd header.footerOffset sstableFooterLen
    (corruptionAt header.footerOffset "SSTable footer extent overflowed")
  failWhen (footerEnd ≠ bytes.length) (corruptionAt header.footerOffset "SSTable footer is not the exact physical tail")
  let footer ← Lsm.parseFooter (slice bytes header.footerOffset sstableFooterLen) header.footerOffset
  failWhen (footer.formatVersion ≠ header.formatVersion ∨ footer.tableId ≠ header.tableId ∨
      footer.entryCount ≠ header.entryCount ∨ footer.indexOffset ≠ header.indexOffset ∨
      footer.footerOffset ≠ header.footerOffset ∨ footer.durableSequence ≠ descriptor.durableSequence)
    (corruptionAt header.footerOffset "SSTable footer metadata disagrees with header/manifest")
  failWhen (crc32 (bytes.take header.footerOffset) ≠ footer.wholeCrc)
    (corruptionAt (header.footerOffset + 56) "SSTable whole-file checksum mismatch")
  failWhen (header.footerOffset < header.indexOffset ∨ header.indexOffset < header.dataOffset)
    (corruption "invalid SSTable data/index extent ordering")
  .ok header

variable {descriptor : SstableDescriptor} {header : TableHeader}

theorem tableFront_eq_ok : tableFront descriptor bytes = .ok header ↔ ∃ footer, TableFramed descriptor bytes header footer := by
  unfold tableFront
  simp only [Checked.bind_eq_ok, failWhen_eq_ok, checkedAdd_eq_ok, not_not, not_lt, not_or, exists_const,
    Except.ok.injEq]
  constructor
  · rintro ⟨hfile, hlen, _, hheader, hdescribed, footerEnd, ⟨hfits, rfl⟩, htail, footer, hfooter, hagrees, hcrc, hordered, rfl⟩
    exact ⟨footer, hfile, hlen, hheader, hdescribed, htail, htail ▸ hfits, hfooter, hagrees, hcrc, hordered.symm⟩
  · rintro ⟨footer, hfile, hlen, hheader, hdescribed, htail, hfits, hfooter, hagrees, hcrc, hordered⟩
    exact ⟨hfile, hlen, _, hheader, hdescribed, _, ⟨htail ▸ hfits, rfl⟩, htail, footer, hfooter, hagrees, hcrc,
      hordered.symm, rfl⟩

theorem covers_openFront :
    Parse.Covers Reported bound (openFront descriptor bytes) (tableFront descriptor bytes) := by
  have hlens : sstableHeaderLen = 64 ∧ sstableFooterLen = 64 := ⟨rfl, rfl⟩
  unfold openFront tableFront
  refine (covers_guardWith (by trivial)).bind fun _ _ => ?_
  refine (covers_guardWith (by trivial)).bind fun _ hlong => ?_
  rw [failWhen_eq_ok] at hlong
  refine (Parse.covers_sub (zero_add _).symm (by omega)).step ?_
  refine covers_parseHeader.bind fun header _ => ?_
  refine (covers_guardWith (by trivial)).bind fun _ _ => ?_
  refine (covers_checkedAdd (by trivial)).bind fun footerEnd hfooterEnd => ?_
  obtain ⟨hfits, rfl⟩ := checkedAdd_eq_ok.1 hfooterEnd
  refine (covers_guardWith (by trivial)).bind fun _ htail => ?_
  have hend := not_not.1 (failWhen_eq_ok.1 htail)
  refine (Parse.covers_sub rfl (by omega)).step ?_
  refine (covers_parseFooter (by omega)).bind fun footer _ => ?_
  refine (covers_guardWith (by trivial)).bind fun _ _ => ?_
  refine (Parse.covers_sub (zero_add _).symm (by omega)).step ?_
  refine (covers_guardPast (by omega)).bind fun _ _ => ?_
  refine (covers_guardWith (by trivial)).bind fun _ _ => ?_
  exact .pure _

theorem parseHeader_version (h : Lsm.parseHeader bytes = .ok header) :
    header.formatVersion = legacyFormatVersion ∨ header.formatVersion = sstableFormatVersion := by
  unfold Lsm.parseHeader at h
  simp only [Checked.bind_eq_ok, failWhen_eq_ok, Except.ok.injEq] at h
  obtain ⟨_, -, _, -, _, hversion, _, -, _, -, _, -, rfl⟩ := h
  exact or_iff_not_and_not.2 hversion

theorem covers_readBloom (hversion : header.formatVersion = legacyFormatVersion ∨ header.formatVersion = sstableFormatVersion)
    (hinside : header.dataOffset ≤ bytes.length) (hfits : bytes.length < u64Limit) (hbound : bytes.length ≤ bound) :
    Parse.Covers Reported bound (readBloom header bytes) (TableImage.readBloom header bytes) := by
  have hlen : sstableHeaderLen = 64 := rfl
  unfold readBloom TableImage.readBloom
  by_cases hlegacy : header.formatVersion = legacyFormatVersion
  · rw [if_pos hlegacy, if_pos hlegacy]
    exact (covers_guardWith (by trivial)).bind fun _ _ => .pure none
  · rw [if_neg hlegacy, if_neg hlegacy, if_pos (hversion.resolve_left hlegacy)]
    refine (covers_guardWith (by trivial)).bind fun _ hpast => ?_
    rw [failWhen_eq_ok] at hpast
    refine (Parse.covers_sub (Nat.add_sub_of_le (by omega)).symm hinside).step ?_
    have hsection := @slice_length bytes sstableHeaderLen (header.dataOffset - sstableHeaderLen) (by omega)
    refine (covers_decodeBloom (by omega) (by omega)).bind fun bloom _ => ?_
    exact .pure _

/-- What a filter says of the number of entries: ten bits for each are in the file. -/
theorem readBloom_count {bloom : Option BloomFilter} (h : TableImage.readBloom header bytes = .ok bloom) :
    (∀ filter ∈ bloom, filter.WellFormed) ∧
      ((header.formatVersion = legacyFormatVersion ∧ header.dataOffset = sstableHeaderLen) ∨
        header.entryCount ≤ bytes.length) := by
  unfold TableImage.readBloom at h
  split_ifs at h with hlegacy
  · rw [Checked.bind_eq_ok] at h
    obtain ⟨_, hdata, h⟩ := h
    cases h
    exact ⟨by rintro _ ⟨⟩, .inl ⟨hlegacy, not_not.1 (failWhen_eq_ok.1 hdata)⟩⟩
  · simp only [Checked.bind_eq_ok, Except.ok.injEq] at h
    obtain ⟨_, -, filter, hdecode, rfl⟩ := h
    obtain ⟨hform, hcount, -, hsection⟩ := BloomFilter.decode_eq_ok.1 hdecode
    refine ⟨by rintro _ ⟨⟩; exact hform, .inr ?_⟩
    have hcanonical := (BloomFilter.canonicalBitCount_eq_ok.1 hform.canonical).2.2.2
    have hten : bitsPerKey = 10 := rfl
    have hbits := hform.length_eq
    have hlen : (slice bytes sstableHeaderLen (header.dataOffset - sstableHeaderLen)).length ≤ bytes.length := by
      simp only [slice, List.length_take, List.length_drop]
      omega
    have hwhole : filter.sectionBytes.length = 40 + filter.bits.length + 4 := by simp [BloomFilter.sectionBytes]
    rw [hsection, hwhole] at hlen
    rw [hten] at hcanonical
    omega

theorem openBytes_front : TableImage.openBytes descriptor bytes = (do
    let header ← tableFront descriptor bytes
    let bloom ← TableImage.readBloom header bytes
    let records ← TableImage.readRecords bytes header.indexOffset header.dataOffset
    failWhen (records.2 ≠ header.indexOffset ∨ records.1.length ≠ header.entryCount)
      (corruptionAt header.indexOffset "SSTable data record count/extent mismatch")
    let index ← TableImage.readIndex bytes header.footerOffset header.indexOffset
    failWhen (index.2 ≠ header.footerOffset ∨ index.1.length ≠ header.entryCount)
      (corruptionAt header.footerOffset "SSTable index record count/extent mismatch")
    (records.1.zip index.1).forM TableImage.describe
    failWhen (index.1 = []) (corruption "manifest references empty SSTable")
    failWhen (index.1.head?.map IndexEntry.key ≠ some descriptor.smallestKey ∨
        index.1.getLast?.map IndexEntry.key ≠ some descriptor.largestKey)
      (corruption "SSTable key bounds disagree with manifest descriptor")
    failWhen (descriptor.durableSequence < index.1.foldl (fun high e => max high e.sequence) 0)
      (corruption "SSTable entry sequence exceeds durable watermark")
    failWhen (bloom.any fun filter => index.1.any fun e => ! filter.mayContain e.key)
      (corruptionAt sstableHeaderLen "SSTable Bloom filter has a false negative for an indexed key")
    .ok { descriptor := descriptor, bytes := bytes, index := index.1, bloom := bloom }) := by
  simp only [TableImage.openBytes, tableFront, bind_assoc, Checked.ok_bind]

theorem describe_reported {pair : TableRecord × IndexEntry} (h : TableImage.describe pair = .error e) : Reported e := by
  unfold TableImage.describe at h
  exact failWhen_reported (by trivial) h

/-- **A table** is opened as the codec says. -/
theorem covers_openTable (hbound : bytes.length ≤ bound)
    (hcount : ∀ header footer, TableFramed descriptor bytes header footer → header.formatVersion = legacyFormatVersion →
      header.dataOffset = sstableHeaderLen → header.entryCount ≤ bound) :
    Parse.Covers Reported bound (openTable descriptor bytes) (TableImage.openBytes descriptor bytes) := by
  rw [openTable, openBytes_front]
  refine covers_openFront.bind fun header hheader => ?_
  obtain ⟨footer, hframed⟩ := tableFront_eq_ok.1 hheader
  have hversion := parseHeader_version hframed.accepted
  obtain ⟨hdata, hindex⟩ := hframed.ordered
  have htail := hframed.tail
  refine (covers_readBloom hversion (by omega) hframed.fits hbound).bind fun bloom hbloom => ?_
  obtain ⟨hforms, hsized⟩ := readBloom_count hbloom
  -- The filter has bits for every entry, and without a filter the caller bounds the count.
  have hroom : header.entryCount ≤ bound := by
    rcases hsized with ⟨hlegacy, hstart⟩ | hsized
    · exact hcount header footer hframed hlegacy hstart
    · exact hsized.trans hbound
  refine (Parse.covers_withCapacity hroom).step ?_
  refine Parse.Covers.bind (Parse.covers_readSorted (fun _ => covers_decodeRecord hbound) (fun _ => by trivial) (by omega))
    fun records _ => ?_
  refine (covers_guardWith (by trivial)).bind fun _ _ => ?_
  refine (Parse.covers_withCapacity hroom).step ?_
  refine Parse.Covers.bind (Parse.covers_readSorted (fun _ => covers_decodeIndexEntry hbound) (fun _ => by trivial)
    (by omega)) fun index _ => ?_
  refine (covers_guardWith (by trivial)).bind fun _ _ => ?_
  refine Parse.Covers.bind (.ofExcept fun e he => ?_) fun _ _ => ?_
  · obtain ⟨pair, -, hpair⟩ := Checked.forM_eq_error he
    exact describe_reported hpair
  refine (covers_guardWith (by trivial)).bind fun _ hne => ?_
  rw [failWhen_eq_ok] at hne
  obtain ⟨last, hlast⟩ : ∃ last, index.1.getLast? = some last := ⟨_, List.getLast?_eq_some_getLast hne⟩
  refine (Parse.covers_expect hlast).step ?_
  rw [hlast]
  simp only [Option.map_some, ne_eq, Option.some.injEq]
  refine (covers_guardWith (by trivial)).bind fun _ _ => ?_
  refine (covers_guardWith (by trivial)).bind fun _ _ => ?_
  have hlacking : Parse.Covers Reported bound (bloom.elim (pure false) fun filter => lacksKey filter index.1)
      (.ok (bloom.any fun filter => index.1.any fun e => ! filter.mayContain e.key)) := by
    cases bloom with
    | none => exact .pure false
    | some filter => exact covers_lacksKey (hforms filter rfl) index.1
  refine hlacking.step ?_
  refine (covers_guardWith (by trivial)).bind fun _ _ => ?_
  exact .pure _

end Tables

section Exact

variable {manifestId : ℕ} {descriptor : SstableDescriptor} {bytes : Bytes}

/-- The number of tables is asked for as it stands. -/
theorem mem_asked_readManifest {header : ManifestHeader} (h : ManifestFramed manifestId bytes header) :
    leNat (slice bytes 32 8) ∈ (readManifest manifestId bytes).asked := by
  have hfront := @covers_readManifestFront 0 bytes manifestId
  rw [manifestFront_eq_ok.2 ⟨header, h, rfl⟩] at hfront
  exact Parse.mem_asked_bind hfront Parse.mem_asked_withCapacity

/-- The number of entries is asked for as it stands, when there is no filter. -/
theorem mem_asked_openTable {header : TableHeader} {footer : TableFooter} (h : TableFramed descriptor bytes header footer)
    (hlegacy : header.formatVersion = legacyFormatVersion) (hstart : header.dataOffset = sstableHeaderLen) :
    header.entryCount ∈ (openTable descriptor bytes).asked := by
  have hfront := @covers_openFront 0 bytes descriptor
  rw [tableFront_eq_ok.2 ⟨footer, h⟩] at hfront
  have hinside : header.dataOffset ≤ bytes.length := by
    obtain ⟨hdata, hindex⟩ := h.ordered
    have htail := h.tail
    omega
  have hbloom : TableImage.readBloom header bytes = .ok none := by
    rw [TableImage.readBloom, if_pos hlegacy, (failWhen_eq_ok (u := ())).2 (not_not.2 hstart)]
    rfl
  have hread := covers_readBloom (.inl hlegacy) hinside h.fits le_rfl
  rw [hbloom] at hread
  exact Parse.mem_asked_bind hfront (Parse.mem_asked_bind hread Parse.mem_asked_withCapacity)

/-- **Bounded parsing**, exactly. The parsers do not panic on any file and report what is wrong with it; their
requests stay within the length of the file but for the number of tables of a manifest and the number of
entries of a table without a filter, when they are greater than it in a file that is otherwise accepted. -/
theorem bounded_parsing (manifestId : ℕ) (descriptor : SstableDescriptor) (bytes : Bytes) :
    ((readManifest manifestId bytes).Bounded Reported bytes.length ↔
      ∀ header, ManifestFramed manifestId bytes header → leNat (slice bytes 32 8) ≤ bytes.length) ∧
    ((openTable descriptor bytes).Bounded Reported bytes.length ↔
      ∀ header footer, TableFramed descriptor bytes header footer → header.formatVersion = legacyFormatVersion →
        header.dataOffset = sstableHeaderLen → header.entryCount ≤ bytes.length) := by
  constructor
  · constructor
    · intro h header hframed
      exact h.asked _ (mem_asked_readManifest hframed)
    · intro hcount
      exact (covers_readManifest le_rfl hcount).bounded
  · constructor
    · intro h header footer hframed hlegacy hstart
      exact h.asked _ (mem_asked_openTable hframed hlegacy hstart)
    · intro hcount
      exact (covers_openTable le_rfl hcount).bounded

/-! ### Files that count what they do not have -/

/-- A manifest that counts the tables of a version set, and has no descriptor. -/
def bareManifest (version : VersionSet) : Bytes :=
  manifestHeader version 0 ++ leBytes 4 (crc32 (manifestHeader version 0))

theorem bareManifest_length {version : VersionSet} : (bareManifest version).length = 92 := by
  rw [bareManifest, List.length_append, manifestHeader_length, leBytes_length]

theorem bareManifest_framed {version : VersionSet} (h : Wide version) :
    ManifestFramed version.manifestId (bareManifest version)
      ⟨manifestHeaderLen, version.walId, version.walFirstSequence, version.tombstoneGcSequence,
        some version.tableIdHighWatermark⟩ := by
  have hcrc : slice (bareManifest version) 88 4 = leBytes 4 (crc32 (manifestHeader version 0)) :=
    holdsAt_append_right manifestHeader_length
  have htake : (bareManifest version).take 88 = manifestHeader version 0 := List.take_left' manifestHeader_length
  constructor
  · rw [bareManifest_length]
    decide
  · rw [bareManifest, slice_manifestHeader (by omega), manifestFields_magic]
  · exact readManifestHeader_eq h (leBytes_length ..).ge
  · rw [bareManifest, slice_manifestHeader (by omega), manifestFields_manifestId, leNat_leBytes h.manifestId]
  · rw [bareManifest_length, bareManifest, slice_manifestHeader (by omega), manifestFields_bodyLen]
    show manifestHeaderLen + leNat (leBytes 8 0) + 4 = 92
    decide
  · rw [bareManifest_length, u64Limit_eq]
    decide
  · rw [bareManifest_length, htake, hcrc, leNat_leBytes (crc32_lt _)]

theorem bareManifest_count {version : VersionSet} (h : version.tables.length < 256 ^ 8) :
    leNat (slice (bareManifest version) 32 8) = version.tables.length := by
  rw [bareManifest, slice_manifestHeader (by omega), manifestFields_count, leNat_leBytes h]

/-- The header of a table without a filter that counts entries, and has none. -/
def bareHeader (count : ℕ) : TableHeader := ⟨legacyFormatVersion, 4, count, 64, 64, 64⟩

/-- Its footer. -/
def bareFooter (count : ℕ) : TableFooter :=
  ⟨legacyFormatVersion, 4, count, 64, 64, 5, crc32 (encodeHeader (bareHeader count))⟩

/-- The table. -/
def bareTable (count : ℕ) : Bytes := encodeHeader (bareHeader count) ++ encodeFooter (bareFooter count)

/-- Its descriptor. -/
def bareDescriptor (count : ℕ) : SstableDescriptor where
  tableId := 4
  level := 0
  fileBytes := 128
  entryCount := count
  durableSequence := 5
  smallestKey := []
  largestKey := []

theorem bareTable_length {count : ℕ} : (bareTable count).length = 128 := by
  rw [bareTable, List.length_append, encodeHeader_length, encodeFooter_length]

theorem bareTable_framed {count : ℕ} (h : count < 256 ^ 8) :
    TableFramed (bareDescriptor count) (bareTable count) (bareHeader count) (bareFooter count) := by
  have hheader : slice (bareTable count) 0 64 = encodeHeader (bareHeader count) :=
    slice_append_self encodeHeader_length
  have hfooter : slice (bareTable count) 64 64 = encodeFooter (bareFooter count) := by
    have hat : HoldsAt (bareTable count) 64 (encodeFooter (bareFooter count)) :=
      holdsAt_append_right encodeHeader_length
    rwa [HoldsAt, encodeFooter_length] at hat
  constructor
  · exact bareTable_length
  · rw [bareTable_length]
    decide
  · show Lsm.parseHeader (slice (bareTable count) 0 64) = _
    rw [hheader]
    exact parseHeader_eq ⟨.inl rfl, by norm_num [bareHeader], h, by norm_num [bareHeader], by norm_num [bareHeader],
      by norm_num [bareHeader]⟩
  · exact ⟨rfl, rfl⟩
  · rw [bareTable_length]
    rfl
  · rw [bareTable_length, u64Limit_eq]
    decide
  · show Lsm.parseFooter (slice (bareTable count) 64 64) 64 = _
    rw [hfooter]
    exact parseFooter_eq ⟨.inl rfl, by norm_num [bareFooter], h, by norm_num [bareFooter], by norm_num [bareFooter],
      by norm_num [bareFooter], crc32_lt _⟩
  · exact ⟨rfl, rfl, rfl, rfl, rfl, rfl⟩
  · exact congrArg crc32 (List.take_left' encodeHeader_length)
  · exact ⟨le_rfl, le_rfl⟩

/-- A version set with a thousand tables. -/
def thousandTables : VersionSet where
  currentGeneration := 0
  manifestId := 1
  durableSequence := 0
  tombstoneGcSequence := 0
  tableIdHighWatermark := 0
  walId := 1
  walFirstSequence := 1
  tables := List.replicate 1000 (bareDescriptor 0)

/-- A manifest of 92 bytes asks for a thousand tables, and a table of 128 bytes for a thousand entries. -/
theorem unbounded_parsing :
    ¬ (∀ manifestId bytes, (readManifest manifestId bytes).Bounded Reported bytes.length) ∧
      ¬ ∀ descriptor bytes, (openTable descriptor bytes).Bounded Reported bytes.length := by
  constructor
  · intro h
    have hframed := @bareManifest_framed thousandTables
      ⟨by decide, by decide, by decide, by decide, by decide, by decide⟩
    have hle := (h 1 (bareManifest thousandTables)).asked _ (mem_asked_readManifest hframed)
    rw [bareManifest_count (by rw [thousandTables, List.length_replicate]; norm_num), bareManifest_length, thousandTables,
      List.length_replicate] at hle
    omega
  · intro h
    have hframed := @bareTable_framed 1000 (by norm_num)
    have hle := (h (bareDescriptor 1000) (bareTable 1000)).asked _ (mem_asked_openTable hframed rfl rfl)
    rw [bareTable_length] at hle
    exact absurd hle (by decide)

end Exact
end DbLab.Lsm.Guarded
