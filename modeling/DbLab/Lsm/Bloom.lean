import DbLab.Lsm.MemTable

/-!
# Bloom filters

The filter of a sorted table: ten bits a key, seven probes that are derived from two 64-bit hashes.
-/

namespace DbLab.Lsm

def bitsPerKey : ℕ := 10
def hashProbes : ℕ := 7
def filterHeaderLen : ℕ := 40
def filterTrailerLen : ℕ := 4
def minFilterBits : ℕ := 64
def fnvPrime : BitVec 64 := 0x00000100000001b3
def hashSeedOne : BitVec 64 := 0x9e3779b97f4a7c15
def hashSeedTwo : BitVec 64 := 0xd1b54a32d192ed03

/-- Source `hash64`. -/
def hash64 (bytes : Bytes) (seed : BitVec 64) : BitVec 64 :=
  let hash := bytes.foldl (fun hash byte => (hash ^^^ BitVec.ofNat 64 byte.val) * fnvPrime)
    (0xcbf29ce484222325 ^^^ seed)
  let hash := (hash ^^^ (hash >>> 33)) * 0xff51afd7ed558ccd
  let hash := (hash ^^^ (hash >>> 33)) * 0xc4ceb9fe1a85ec53
  hash ^^^ (hash >>> 33)

/-- Source `probe_positions`. -/
def probePositions (key : Bytes) (bitCount : ℕ) : List ℕ :=
  let first := hash64 key hashSeedOne
  let second := hash64 key hashSeedTwo ||| 1
  (List.range hashProbes).map fun probe => (first + BitVec.ofNat 64 probe * second).toNat % bitCount

/-- Source `canonical_bit_count`. -/
def canonicalBitCount (keyCount : ℕ) : Except DbError ℕ :=
  if keyCount = 0 then .error (corruption "Bloom key count must be nonzero")
  else if u64Limit ≤ keyCount * bitsPerKey then .error (corruption "Bloom bit count overflowed u64")
  else do
    let bits ← checkedAdd (max (keyCount * bitsPerKey) minFilterBits) 7
      (corruption "Bloom byte rounding overflowed u64")
    .ok (bits / 8 * 8)

structure BloomFilter where
  bitCount : ℕ
  keyCount : ℕ
  bits : Bytes
  deriving DecidableEq

namespace BloomFilter

/-- Set one bit. -/
def setBit (bits : Bytes) (bit : ℕ) : Bytes :=
  bits.modify (bit / 8) fun byte => lowByte (byte.val ||| 2 ^ (bit % 8))

def insert (filter : BloomFilter) (key : Bytes) : BloomFilter :=
  { filter with bits := (probePositions key filter.bitCount).foldl setBit filter.bits }

/-- Source `may_contain`. -/
def mayContain (filter : BloomFilter) (key : Bytes) : Bool :=
  (probePositions key filter.bitCount).all fun bit =>
    (filter.bits.getD (bit / 8) 0).val.testBit (bit % 8)

def build (keys : List Bytes) (keyCount : ℕ) : Except DbError BloomFilter := do
  failWhen (keyCount = 0) (corruption "Bloom filter cannot describe an empty SSTable")
  let bitCount ← canonicalBitCount keyCount
  let filter := keys.foldl insert ⟨bitCount, keyCount, List.replicate (bitCount / 8) 0⟩
  failWhen (keys.length ≠ keyCount)
    (corruption s!"Bloom received {keys.length} keys but expected {keyCount}")
  .ok filter

/-- The bytes that `encode` needs; the length of the payload is a `u32`. -/
def encodedBytes (filter : BloomFilter) : Except DbError ℕ := do
  failWhen (2 ^ 32 ≤ filter.bits.length) (corruption "Bloom payload length does not fit u32")
  .ok (filterHeaderLen + filter.bits.length + filterTrailerLen)

end BloomFilter
end DbLab.Lsm
