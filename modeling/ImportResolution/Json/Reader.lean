import ImportResolution.Double
import ImportResolution.Json.Written

/-! Reading JSON text. Strings must hold no bare control characters. Numbers are taken as the product
of a significand of 64 bits and a power of ten, and surrogates in pairs; what is out of range counts
only where it is read, and so does nesting that is too deep. -/
namespace ImportResolution.Json

def isSpace (c : Char) : Bool := c = ' ' || c = '\t' || c = '\n' || c = '\r'
def skipSpace (s : List Char) : List Char := s.dropWhile isSpace

def hexValue? (c : Char) : Option Nat :=
  if '0' ≤ c && c ≤ '9' then some (c.toNat - 48)
  else if 'a' ≤ c && c ≤ 'f' then some (c.toNat - 87)
  else if 'A' ≤ c && c ≤ 'F' then some (c.toNat - 55)
  else none

def hex4? (a b c d : Char) : Option Nat := do
  let w ← hexValue? a
  let x ← hexValue? b
  let y ← hexValue? c
  let z ← hexValue? d
  return ((w*16+x)*16+y)*16+z

/-- The character of a pair of UTF-16 units. -/
def ofSurrogates (high low : Nat) : Char := Char.ofNat (0x10000 + (high - 0xD800)*0x400 + (low - 0xDC00))

def simpleEscape? : Char → Option Char
  | '"' => some '"'
  | '\\' => some '\\'
  | '/' => some '/'
  | 'b' => some (Char.ofNat 8)
  | 'f' => some (Char.ofNat 12)
  | 'n' => some '\n'
  | 'r' => some '\r'
  | 't' => some '\t'
  | _ => none

/-- The rest of a string behind its opening quote; `done` holds what was read, the last first. -/
def readString (done : List TextUnit) : List Char → Option (Option String × List Char)
  | [] => none
  | '"' :: r => some (assemble? ofSurrogates done.reverse,r)
  | '\\' :: 'u' :: a :: b :: c :: d :: r =>
    match hex4? a b c d with
    | some n => readString (.code n :: done) r
    | none => none
  | '\\' :: c :: r =>
    match simpleEscape? c with
    | some e => readString (.char e :: done) r
    | none => none
  | c :: r => if c.toNat < 0x20 then none else readString (.char c :: done) r

def digitsValue (ds : List Char) : Nat := ds.foldl (fun n c => n*10 + (c.toNat - 48)) 0

/-- Takes digits into a significand while it fits into 64 bits. The rest of them is counted. -/
def takeDigits (significand : Nat) : List Char → Nat × Nat
  | [] => (significand,0)
  | c :: r =>
    let next := significand*10 + (c.toNat - 48)
    if next < Nat.pow 2 64 then takeDigits next r else (significand,r.length + 1)

/-- Digits behind the point start afresh with the significand that those before it gave, and are lost
from the first that does not fit. -/
def isBounded (whole fraction : List Char) (exponent : Int) : Bool :=
  let front := takeDigits 0 whole
  let back := takeDigits front.1 fraction
  let taken : Nat := fraction.length - back.2
  Double.hasProduct back.1 ((front.2 : Int) - taken + exponent)

def ofNumber? (negative : Bool) (whole fraction : List Char) (exponent : Option Int) : Option Numeral :=
  let sign (n : Nat) : Int := if negative then -(n : Int) else n
  let n := digitsValue whole
  if fraction.isEmpty && exponent.isNone && !(negative && n == 0)
      && (if negative then n ≤ Nat.pow 2 63 else n < Nat.pow 2 64) then
    some (.int (sign n))
  else if isBounded whole fraction (exponent.getD 0) then
    some (.decimal (sign (digitsValue (whole ++ fraction))) (exponent.getD 0 - fraction.length))
  else none

/-- The digits of an exponent behind its letter, with their sign. -/
def readExponent (s : List Char) : Option (Int × List Char) :=
  let (negative,r) := match s with
    | '-' :: r => (true,r)
    | '+' :: r => (false,r)
    | r => (false,r)
  let ds := r.takeWhile Char.isDigit
  if ds.isEmpty then none
  else
    let n : Int := digitsValue ds
    some (if negative then -n else n,r.dropWhile Char.isDigit)

def readNumber (s : List Char) : Option (Written × List Char) := do
  let (negative,r) := match s with
    | '-' :: r => (true,r)
    | r => (false,r)
  let whole := r.takeWhile Char.isDigit
  if whole.isEmpty || (whole.head? == some '0' && whole.length > 1) then none
  let r := r.dropWhile Char.isDigit
  let (fraction,r) ← match r with
    | '.' :: r =>
      let ds := r.takeWhile Char.isDigit
      if ds.isEmpty then none else some (ds,r.dropWhile Char.isDigit)
    | r => some ([],r)
  let (exponent,r) ← match r with
    | c :: r =>
      if c = 'e' || c = 'E' then (readExponent r).map fun e => (some e.1,e.2) else some (none,c :: r)
    | [] => some (none,[])
  return (.number (ofNumber? negative whole fraction exponent),r)

def readWord? (word : String) (value : Written) (s : List Char) : Option (Written × List Char) :=
  (word.toList.isPrefixOf? s).map fun r => (value,r)

mutual

def readValue : Nat → List Char → Option (Written × List Char)
  | 0, _ => none
  | fuel+1, s =>
    match skipSpace s with
    | '"' :: r => (readString [] r).map fun p => (.text p.1,p.2)
    | '[' :: r =>
      match skipSpace r with
      | ']' :: r => some (.list [],r)
      | r => (readElements fuel [] r).map fun p => (.list p.1,p.2)
    | '\x7b' :: r =>
      match skipSpace r with
      | '\x7d' :: r => some (.members [],r)
      | r => (readMembers fuel [] r).map fun p => (.members p.1,p.2)
    | 't' :: r => readWord? "true" (.flag true) ('t' :: r)
    | 'f' :: r => readWord? "false" (.flag false) ('f' :: r)
    | 'n' :: r => readWord? "null" .null ('n' :: r)
    | r => readNumber r

def readElements : Nat → List Written → List Char → Option (List Written × List Char)
  | 0, _, _ => none
  | fuel+1, done, s =>
    match readValue fuel s with
    | none => none
    | some (v,r) =>
      match skipSpace r with
      | ',' :: r => readElements fuel (v :: done) r
      | ']' :: r => some ((v :: done).reverse,r)
      | _ => none

def readMembers :
    Nat → List (Option String × Written) → List Char →
      Option (List (Option String × Written) × List Char)
  | 0, _, _ => none
  | fuel+1, done, s =>
    match skipSpace s with
    | '"' :: r =>
      match readString [] r with
      | none => none
      | some (key,r) =>
        match skipSpace r with
        | ':' :: r =>
          match readValue fuel r with
          | none => none
          | some (v,r) =>
            match skipSpace r with
            | ',' :: r => readMembers fuel ((key,v) :: done) r
            | '\x7d' :: r => some (((key,v) :: done).reverse,r)
            | _ => none
        | _ => none
    | _ => none

end

/-- The value that a whole text holds, as it is written. -/
def Written.parse? (s : String) : Option Written :=
  match readValue (s.length+1) s.toList with
  | some (v,r) => if (skipSpace r).isEmpty then some v else none
  | none => none

def maxDepth : Nat := 128

/-- The value that a whole text holds, all of it read. -/
def parse? (s : String) : Option Json := (Written.parse? s).bind (Written.json? maxDepth)

end ImportResolution.Json
