import DbLab.Lib.Bytes

/-!
# CRC-32

The reflected CRC-32 with polynomial `0xEDB88320`, bit by bit. A hasher that is updated in parts has
the value of the concatenation (`crcRegister_append`), so a model of it keeps the bytes.
-/

namespace DbLab

/-- One shift of the register. -/
def crcBit (c : BitVec 32) : BitVec 32 :=
  if c.getLsbD 0 then (c >>> 1) ^^^ 0xEDB88320#32 else c >>> 1

/-- The register after one more byte. -/
def crcByte (c : BitVec 32) (b : Byte) : BitVec 32 := crcBit^[8] (c ^^^ BitVec.ofNat 32 b.val)

def crcRegister (bs : Bytes) (c : BitVec 32) : BitVec 32 := bs.foldl crcByte c

def crc32 (bs : Bytes) : ℕ := (~~~crcRegister bs (BitVec.allOnes 32)).toNat

theorem crc32_lt (bs : Bytes) : crc32 bs < 256 ^ 4 := BitVec.isLt _

theorem crcRegister_append (l m : Bytes) (c : BitVec 32) :
    crcRegister (l ++ m) c = crcRegister m (crcRegister l c) := List.foldl_append

-- The check value of the algorithm, the checksum of the ASCII digits `1` to `9`.
example : crc32 [49, 50, 51, 52, 53, 54, 55, 56, 57] = 0xCBF43926 := by decide +kernel

end DbLab
