import ImportResolution.Text

/-! The SHA-256 digest of a byte string, as 64 lower-case hexadecimal digits. -/
namespace ImportResolution.Digest

/-- Fractional parts of the cube roots of the first 64 primes. -/
def roundConstants : List UInt32 :=
  [0x428a2f98, 0x71374491, 0xb5c0fbcf, 0xe9b5dba5, 0x3956c25b, 0x59f111f1, 0x923f82a4, 0xab1c5ed5,
  0xd807aa98, 0x12835b01, 0x243185be, 0x550c7dc3, 0x72be5d74, 0x80deb1fe, 0x9bdc06a7, 0xc19bf174,
  0xe49b69c1, 0xefbe4786, 0x0fc19dc6, 0x240ca1cc, 0x2de92c6f, 0x4a7484aa, 0x5cb0a9dc, 0x76f988da,
  0x983e5152, 0xa831c66d, 0xb00327c8, 0xbf597fc7, 0xc6e00bf3, 0xd5a79147, 0x06ca6351, 0x14292967,
  0x27b70a85, 0x2e1b2138, 0x4d2c6dfc, 0x53380d13, 0x650a7354, 0x766a0abb, 0x81c2c92e, 0x92722c85,
  0xa2bfe8a1, 0xa81a664b, 0xc24b8b70, 0xc76c51a3, 0xd192e819, 0xd6990624, 0xf40e3585, 0x106aa070,
  0x19a4c116, 0x1e376c08, 0x2748774c, 0x34b0bcb5, 0x391c0cb3, 0x4ed8aa4a, 0x5b9cca4f, 0x682e6ff3,
  0x748f82ee, 0x78a5636f, 0x84c87814, 0x8cc70208, 0x90befffa, 0xa4506ceb, 0xbef9a3f7, 0xc67178f2]

/-- The eight words that pass from block to block. -/
structure Chain where
  a : UInt32
  b : UInt32
  c : UInt32
  d : UInt32
  e : UInt32
  f : UInt32
  g : UInt32
  h : UInt32

/-- Fractional parts of the square roots of the first eight primes. -/
def Chain.start : Chain :=
  ⟨0x6a09e667,0xbb67ae85,0x3c6ef372,0xa54ff53a,0x510e527f,0x9b05688c,0x1f83d9ab,0x5be0cd19⟩

def rotateRight (x n : UInt32) : UInt32 := (x >>> n) ||| (x <<< (32 - n))

def Chain.round (s : Chain) (constant word : UInt32) : Chain :=
  let s1 := rotateRight s.e 6 ^^^ rotateRight s.e 11 ^^^ rotateRight s.e 25
  let choice := (s.e &&& s.f) ^^^ ((~~~ s.e) &&& s.g)
  let t1 := s.h + s1 + choice + constant + word
  let s0 := rotateRight s.a 2 ^^^ rotateRight s.a 13 ^^^ rotateRight s.a 22
  let majority := (s.a &&& s.b) ^^^ (s.a &&& s.c) ^^^ (s.b &&& s.c)
  ⟨t1+s0+majority,s.a,s.b,s.c,s.d+t1,s.e,s.f,s.g⟩

def Chain.add (s t : Chain) : Chain :=
  ⟨s.a+t.a,s.b+t.b,s.c+t.c,s.d+t.d,s.e+t.e,s.f+t.f,s.g+t.g,s.h+t.h⟩

def Chain.words (s : Chain) : List UInt32 := [s.a,s.b,s.c,s.d,s.e,s.f,s.g,s.h]

def wordOfBytes (b0 b1 b2 b3 : UInt8) : UInt32 :=
  (b0.toUInt32 <<< 24) ||| (b1.toUInt32 <<< 16) ||| (b2.toUInt32 <<< 8) ||| b3.toUInt32

/-- Big-endian words of a byte string; fewer than four bytes at the end are left out. -/
def wordsOfBytes : List UInt8 → List UInt32
  | b0 :: b1 :: b2 :: b3 :: r => wordOfBytes b0 b1 b2 b3 :: wordsOfBytes r
  | _ => []

/-- The next word of the schedule from the sixteen before it, the oldest first. -/
def nextWord : List UInt32 → UInt32
  | w0 :: w1 :: _ :: _ :: _ :: _ :: _ :: _ :: _ :: w9 :: _ :: _ :: _ :: _ :: w14 :: _ =>
    let s0 := rotateRight w1 7 ^^^ rotateRight w1 18 ^^^ (w1 >>> 3)
    let s1 := rotateRight w14 17 ^^^ rotateRight w14 19 ^^^ (w14 >>> 10)
    w0 + s0 + w9 + s1
  | _ => 0

def runRounds (s : Chain) (window : List UInt32) : List UInt32 → Chain
  | [] => s
  | k :: r => runRounds (s.round k (window.headD 0)) (window.tail ++ [nextWord window]) r

def absorb (s : Chain) (block : List UInt32) : Chain := s.add (runRounds s block roundConstants)

def absorbAll (s : Chain) : List UInt32 → Chain
  | [] => s
  | w :: r => absorbAll (absorb s ((w :: r).take 16)) ((w :: r).drop 16)
  termination_by words => words.length
  decreasing_by simp only [List.length_drop,List.length_cons]; omega

def bigEndian (count n : Nat) : List UInt8 :=
  (List.range count).map fun i => UInt8.ofNat (n >>> (8*(count-1-i)))

/-- The message, a one bit, zeros up to eight bytes below a multiple of 64, and its length in bits. -/
def pad (message : List UInt8) : List UInt8 :=
  let n := message.length
  message ++ [0x80] ++ List.replicate ((119 - n % 64) % 64) 0 ++ bigEndian 8 (8*n)

def hexOfWord (w : UInt32) : List Char :=
  (List.range 8).map fun i => Text.hexDigit ((w.toNat >>> (4*(7-i))) % 16)

def sha256 (message : List UInt8) : String :=
  String.ofList ((absorbAll Chain.start (wordsOfBytes (pad message))).words.flatMap hexOfWord)

def utf8 (s : String) : List UInt8 := s.toUTF8.toList

/-- What is digested for a versioned list of parts: each part follows a bar. -/
def encodeParts (version : String) (parts : List String) : String :=
  parts.foldl (fun acc part => acc ++ "|" ++ part) version

/-- Digest of a text. -/
def ofText (s : String) : String := sha256 (utf8 s)
def ofBytes (content : ByteArray) : String := sha256 content.toList

/-- Digest of a versioned list of parts, in the given order. -/
def ofParts (version : String) (parts : List String) : String := ofText (encodeParts version parts)

theorem encodeParts_nil (version : String) : encodeParts version [] = version := rfl
theorem encodeParts_cons (version part : String) (parts : List String) :
    encodeParts version (part :: parts) = encodeParts (version ++ "|" ++ part) parts := rfl

end ImportResolution.Digest
