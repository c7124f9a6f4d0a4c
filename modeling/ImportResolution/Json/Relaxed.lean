import ImportResolution.Json.Reader
import ImportResolution.Text.Case
import ImportResolution.Text.WordTable

/-! Reading JSON5: JSON with comments, trailing commas, single quotes, bare keys and more numbers.
Integers must fit in 64 bits, and hexadecimal ones bear no sign and fit in 32. -/
namespace ImportResolution.Json.Relaxed

def isLineEnd (c : Char) : Bool := c = '\n' || c = '\r' || c.toNat = 0x2028 || c.toNat = 0x2029

def isRelaxedSpace (c : Char) : Bool :=
  let n := c.toNat
  isLineEnd c || n = 9 || n = 11 || n = 12 || n = 0x20 || n = 0xA0 || n = 0xFEFF || n = 0x1680
    || (0x2000 ≤ n && n ≤ 0x200A) || n = 0x202F || n = 0x205F || n = 0x3000

/-- The text behind blanks and comments; a block comment that never ends stays in front. -/
def skip : Nat → List Char → List Char
  | 0, s => s
  | fuel+1, s =>
    match s.dropWhile isRelaxedSpace with
    | '/' :: '/' :: r => skip fuel (r.dropWhile (!isLineEnd ·))
    | '/' :: '*' :: r =>
      match Text.cutChars? ['*','/'] r with
      | some cut => skip fuel cut.2
      | none => '/' :: '*' :: r
    | r => r

def skipAll (s : List Char) : List Char := skip (s.length+1) s

/-- What a backslash and this character stand for. -/
def escaped? (c : Char) : Option Char :=
  if c = 'b' then some (Char.ofNat 8)
  else if c = 'f' then some (Char.ofNat 12)
  else if c = 'n' then some '\n'
  else if c = 'r' then some '\r'
  else if c = 't' then some '\t'
  else if c = 'v' then some (Char.ofNat 11)
  else if c.isDigit || c = 'x' || c = 'u' then none
  else some c

/-- What a pair of surrogates stands for: the bits of both halves, laid over each other once the low
half has been raised above the basic plane. -/
def overlaySurrogates (high low : Nat) : Char :=
  Char.ofNat (((high - 0xD800) <<< 10) ||| (low - 0xDC00 + 0x10000))

/-- The rest of a string up to its closing quote; a line may be broken behind a backslash. -/
def readQuoted (quote : Char) (done : List TextUnit) : List Char → Option (Option String × List Char)
  | [] => none
  | '\\' :: '\r' :: '\n' :: r => readQuoted quote done r
  | '\\' :: '0' :: r => readQuoted quote (.char (Char.ofNat 0) :: done) r
  | '\\' :: 'x' :: a :: b :: r =>
    match hexValue? a, hexValue? b with
    | some x, some y => readQuoted quote (.char (Char.ofNat (x*16+y)) :: done) r
    | _, _ => none
  | '\\' :: 'u' :: a :: b :: c :: d :: r =>
    match hex4? a b c d with
    | some n => readQuoted quote (.code n :: done) r
    | none => none
  | '\\' :: c :: r =>
    if isLineEnd c then readQuoted quote done r
    else
      match escaped? c with
      | some e => readQuoted quote (.char e :: done) r
      | none => none
  | c :: r =>
    if c = quote then some (assemble? overlaySurrogates done.reverse,r)
    else if c = '\\' || isLineEnd c then none
    else readQuoted quote (.char c :: done) r

def isNameStart (c : Char) : Bool :=
  c.isAlpha || c = '$' || c = '_' || (c.toNat ≥ 128 && Text.inRanges Text.WordTable.letters c)

def isNamePart (c : Char) : Bool :=
  isNameStart c || c.isDigit || c = '^' || c.toNat = 0x60 || c.toNat = 0x200C || c.toNat = 0x200D
    || (c.toNat ≥ 128 && Text.inRanges Text.WordTable.nameMarks c)

/-- The units of a name while they last. A name may hold any unit by its number. -/
def readName (allowed : Char → Bool) (done : List TextUnit) : List Char → List TextUnit × List Char
  | '\\' :: 'u' :: a :: b :: c :: d :: r =>
    match hex4? a b c d with
    | some n => readName isNamePart (.code n :: done) r
    | none => (done.reverse,'\\' :: 'u' :: a :: b :: c :: d :: r)
  | c :: r => if allowed c then readName isNamePart (.char c :: done) r else (done.reverse,c :: r)
  | [] => (done.reverse,[])

/-- A key: a string, or a bare name. -/
def readKey (s : List Char) : Option (Option String × List Char) :=
  match s with
  | '"' :: r => readQuoted '"' [] r
  | '\'' :: r => readQuoted '\'' [] r
  | s =>
    match readName isNameStart [] s with
    | ([],_) => none
    | (units,r) => some (assemble? overlaySurrogates units,r)

/-- The sign in front, if there is one. -/
def readSign : List Char → Option Char × List Char
  | '+' :: r => (some '+',r)
  | '-' :: r => (some '-',r)
  | s => (none,s)

def isHexDigit (c : Char) : Bool := (hexValue? c).isSome

def hexNumber? (sign : Option Char) (digits : List Char) : Option Numeral :=
  let n := digits.foldl (fun n c => n*16 + (hexValue? c).getD 0) 0
  if sign.isNone && n < Nat.pow 2 32 then some (.int n) else none

def isExponentMark (c : Char) : Bool := c = 'e' || c = 'E'

def decimalNumber? (sign : Option Char) (whole fraction : List Char) (pointed : Bool)
    (exponent : Option Int) : Option Numeral :=
  let signed (n : Nat) : Int := if sign = some '-' then -(n : Int) else n
  if !pointed && exponent.isNone then
    let n := digitsValue whole
    if n < Nat.pow 2 63 || (sign = some '-' && n = Nat.pow 2 63) then some (.int (signed n)) else none
  else
    let mantissa := digitsValue (whole ++ fraction)
    let e := exponent.getD 0 - fraction.length
    if Double.holds mantissa e then some (.decimal (signed mantissa) e) else none

/-- Infinity and no-number, which a plus sign spoils. -/
def readUnbounded? (sign : Option Char) (r : List Char) : Option (Written × List Char) :=
  (("Infinity".toList.isPrefixOf? r).or ("NaN".toList.isPrefixOf? r)).map fun rest =>
    (.number (if sign = some '+' then none else some .unbounded),rest)

def readDecimalNumber (sign : Option Char) (r : List Char) : Option (Written × List Char) :=
  let whole := match r with
    | '0' :: _ => ['0']
    | _ => r.takeWhile Char.isDigit
  let r := r.drop whole.length
  let (pointed,fraction,r) := match r with
    | '.' :: r' =>
      let ds := r'.takeWhile Char.isDigit
      if whole.isEmpty && ds.isEmpty then (false,[],r) else (true,ds,r'.dropWhile Char.isDigit)
    | _ => (false,[],r)
  if whole.isEmpty && fraction.isEmpty then none
  else
    let (exponent,r) := match r with
      | c :: r' =>
        if isExponentMark c then
          match readExponent r' with
          | some (e,rest) => (some e,rest)
          | none => (none,r)
        else (none,r)
      | [] => (none,r)
    some (.number (decimalNumber? sign whole fraction pointed exponent),r)

def readRelaxedNumber (s : List Char) : Option (Written × List Char) :=
  let (sign,r) := readSign s
  let decimal := (readUnbounded? sign r).or (readDecimalNumber sign r)
  match r with
  | '0' :: x :: rest =>
    if (x = 'x' || x = 'X') && (rest.head?.map isHexDigit).getD false then
      some (.number (hexNumber? sign (rest.takeWhile isHexDigit)),rest.dropWhile isHexDigit)
    else decimal
  | _ => decimal

mutual

def readRelaxed : Nat → List Char → Option (Written × List Char)
  | 0, _ => none
  | fuel+1, s =>
    match skipAll s with
    | '"' :: r => (readQuoted '"' [] r).map fun p => (.text p.1,p.2)
    | '\'' :: r => (readQuoted '\'' [] r).map fun p => (.text p.1,p.2)
    | '[' :: r =>
      match skipAll r with
      | ']' :: r => some (.list [],r)
      | r => (readItems fuel [] r).map fun p => (.list p.1,p.2)
    | '\x7b' :: r =>
      match skipAll r with
      | '\x7d' :: r => some (.members [],r)
      | r => (readPairs fuel [] r).map fun p => (.members p.1,p.2)
    | 't' :: r => readWord? "true" (.flag true) ('t' :: r)
    | 'f' :: r => readWord? "false" (.flag false) ('f' :: r)
    | 'n' :: r => readWord? "null" .null ('n' :: r)
    | r => readRelaxedNumber r

def readItems : Nat → List Written → List Char → Option (List Written × List Char)
  | 0, _, _ => none
  | fuel+1, done, s =>
    match readRelaxed fuel s with
    | none => none
    | some (v,r) =>
      match skipAll r with
      | ',' :: r =>
        match skipAll r with
        | ']' :: r => some ((v :: done).reverse,r)
        | r => readItems fuel (v :: done) r
      | ']' :: r => some ((v :: done).reverse,r)
      | _ => none

def readPairs :
    Nat → List (Option String × Written) → List Char →
      Option (List (Option String × Written) × List Char)
  | 0, _, _ => none
  | fuel+1, done, s =>
    match readKey (skipAll s) with
    | none => none
    | some (key,r) =>
      match skipAll r with
      | ':' :: r =>
        match readRelaxed fuel r with
        | none => none
        | some (v,r) =>
          match skipAll r with
          | ',' :: r =>
            match skipAll r with
            | '\x7d' :: r => some (((key,v) :: done).reverse,r)
            | r => readPairs fuel ((key,v) :: done) r
          | '\x7d' :: r => some (((key,v) :: done).reverse,r)
          | _ => none
      | _ => none

end

/-- The value that a whole text holds, as it is written. -/
def parse? (s : String) : Option Written :=
  match readRelaxed (s.length+1) s.toList with
  | some (v,r) => if (skipAll r).isEmpty then some v else none
  | none => none

end ImportResolution.Json.Relaxed
