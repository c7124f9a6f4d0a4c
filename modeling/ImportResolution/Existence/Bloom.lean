import ImportResolution.Digest.Sha256

/-! A filter that answers "perhaps" for every text put into it and "no" for most others. Each text
sets three bits of a table whose size is a power of two. -/
namespace ImportResolution.Existence

/-- 32-bit FNV-1a. -/
def fnv (s : String) : UInt32 :=
  (Digest.utf8 s).foldl (fun h b => (h ^^^ b.toUInt32) * 0x01000193) 0x811c9dc5

/-- A second hash, always odd, so that the steps between positions never come back to a bit. -/
def strideHash (s : String) : UInt32 :=
  let h := (Digest.utf8 s).foldl (fun h b => (h * 33) ^^^ b.toUInt32) 5381
  let h := (h ^^^ (h >>> 16)) * 0x85ebca6b
  let h := (h ^^^ (h >>> 13)) * 0xc2b2ae35
  (h ^^^ (h >>> 16)) ||| 1

/-- The bits set, as a binary number, and the size of the table. -/
structure Bloom where
  mask : Nat
  bitCount : Nat
  deriving DecidableEq, Repr

namespace Bloom

def bitsPerEntry : Nat := 12
def minBits : Nat := Nat.pow 2 12
def maxBits : Nat := Nat.pow 2 25

/-- An empty filter for the expected number of texts. -/
def withExpected (expected : Nat) : Bloom :=
  ⟨0,min (max (Nat.nextPowerOfTwo (expected*bitsPerEntry)) minBits) maxBits⟩

def positions (f : Bloom) (s : String) : List Nat :=
  [0,1,2].map fun i => (fnv s + i * strideHash s).toNat % f.bitCount

def insert (f : Bloom) (s : String) : Bloom :=
  ⟨(f.positions s).foldl (fun mask bit => mask ||| (1 <<< bit)) f.mask,f.bitCount⟩

def mayContain (f : Bloom) (s : String) : Bool := (f.positions s).all f.mask.testBit

@[simp] theorem bitCount_insert (f : Bloom) (s : String) : (f.insert s).bitCount = f.bitCount := rfl

end Bloom
end ImportResolution.Existence
