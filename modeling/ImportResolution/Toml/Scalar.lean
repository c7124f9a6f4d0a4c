import ImportResolution.Json.Reader
import ImportResolution.Toml.Value

/-! Scalars of TOML: text in quotes on one line or over several, numbers with separators between their
digits, and dates. -/
namespace ImportResolution.Toml

def isBlank (c : Char) : Bool := c = ' ' || c = '\t'
def skipBlank (s : List Char) : List Char := s.dropWhile isBlank

/-- No control character but the tab. -/
def isPlain (c : Char) : Bool := c = '\t' || (0x20 ≤ c.toNat && c.toNat != 0x7F)

def afterBreak? : List Char → Option (List Char)
  | '\n' :: r => some r
  | '\r' :: '\n' :: r => some r
  | _ => none

theorem length_lt_of_afterBreak? {s r : List Char} (h : afterBreak? s = some r) :
    r.length < s.length := by
  unfold afterBreak? at h
  split at h
  · cases h; exact Nat.lt_succ_self _
  · cases h; simp only [List.length_cons]; omega
  · cases h

/-- Skips blanks and line breaks. -/
def skipBlankLines : List Char → List Char
  | ' ' :: r => skipBlankLines r
  | '\t' :: r => skipBlankLines r
  | '\n' :: r => skipBlankLines r
  | '\r' :: '\n' :: r => skipBlankLines r
  | s => s

theorem length_skipBlankLines_le (s : List Char) : (skipBlankLines s).length ≤ s.length := by
  fun_induction skipBlankLines s <;> simp_all <;> omega

/-- What follows a line break behind blanks, with all blanks and breaks that follow it. -/
def continuation? (s : List Char) : Option (List Char) :=
  (afterBreak? (skipBlank s)).map skipBlankLines

theorem length_lt_of_continuation? {s r : List Char} (h : continuation? s = some r) :
    r.length < s.length := by
  obtain ⟨t,ht,rfl⟩ := Option.map_eq_some_iff.mp h
  have h₁ := length_lt_of_afterBreak? ht
  have h₂ := length_skipBlankLines_le t
  have h₃ : (skipBlank s).length ≤ s.length := (List.dropWhile_sublist isBlank).length_le
  omega

/-- The character of a code point in hexadecimal digits. -/
def codePoint? (digits : List Char) : Option Char := do
  let values ← digits.mapM Json.hexValue?
  let n := values.foldl (fun n d => n*16 + d) 0
  if n < 0xD800 || (0xDFFF < n && n < 0x110000) then some (Char.ofNat n) else none

def escape? (c : Char) : Option Char := if c = '/' then none else Json.simpleEscape? c

/-- The rest of a text behind its opening quote; `done` holds what was read, the last first. -/
def readBasic (done : List Char) : List Char → Option (String × List Char)
  | [] => none
  | '"' :: r => some (String.ofList done.reverse,r)
  | '\\' :: 'u' :: a :: b :: c :: d :: r =>
    match codePoint? [a,b,c,d] with
    | some x => readBasic (x :: done) r
    | none => none
  | '\\' :: 'U' :: a :: b :: c :: d :: e :: f :: g :: h :: r =>
    match codePoint? [a,b,c,d,e,f,g,h] with
    | some x => readBasic (x :: done) r
    | none => none
  | '\\' :: c :: r =>
    match escape? c with
    | some x => readBasic (x :: done) r
    | none => none
  | c :: r => if isPlain c then readBasic (c :: done) r else none
  termination_by s => s.length

/-- The same for a text over several lines. Two quotes may stand before the closing three, and a
backslash at the end of a line takes the break and the blanks behind it away. -/
def readLongBasic (done : List Char) : List Char → Option (String × List Char)
  | [] => none
  | '"' :: '"' :: '"' :: '"' :: '"' :: r => some (String.ofList ('"' :: '"' :: done).reverse,r)
  | '"' :: '"' :: '"' :: '"' :: r => some (String.ofList ('"' :: done).reverse,r)
  | '"' :: '"' :: '"' :: r => some (String.ofList done.reverse,r)
  | '\\' :: 'u' :: a :: b :: c :: d :: r =>
    match codePoint? [a,b,c,d] with
    | some x => readLongBasic (x :: done) r
    | none => none
  | '\\' :: 'U' :: a :: b :: c :: d :: e :: f :: g :: h :: r =>
    match codePoint? [a,b,c,d,e,f,g,h] with
    | some x => readLongBasic (x :: done) r
    | none => none
  | '\\' :: c :: r =>
    match escape? c with
    | some x => readLongBasic (x :: done) r
    | none =>
      match hr : continuation? (c :: r) with
      | some rest =>
        have _ : rest.length < r.length + 1 := length_lt_of_continuation? hr
        readLongBasic done rest
      | none => none
  | '\r' :: '\n' :: r => readLongBasic ('\n' :: done) r
  | '\n' :: r => readLongBasic ('\n' :: done) r
  | c :: r => if isPlain c then readLongBasic (c :: done) r else none
  termination_by s => s.length

def inLiteral (c : Char) : Bool := isPlain c && c != '\''

def readLiteral (s : List Char) : Option (String × List Char) :=
  match s.dropWhile inLiteral with
  | '\'' :: r => some (String.ofList (s.takeWhile inLiteral),r)
  | _ => none

def readLongLiteral (done : List Char) : List Char → Option (String × List Char)
  | [] => none
  | '\'' :: '\'' :: '\'' :: '\'' :: '\'' :: r => some (String.ofList ('\'' :: '\'' :: done).reverse,r)
  | '\'' :: '\'' :: '\'' :: '\'' :: r => some (String.ofList ('\'' :: done).reverse,r)
  | '\'' :: '\'' :: '\'' :: r => some (String.ofList done.reverse,r)
  | '\r' :: '\n' :: r => readLongLiteral ('\n' :: done) r
  | '\n' :: r => readLongLiteral ('\n' :: done) r
  | c :: r => if isPlain c then readLongLiteral (c :: done) r else none

/-- The line break right behind three opening quotes does not count. -/
def afterFirstBreak (s : List Char) : List Char := (afterBreak? s).getD s

def readText : List Char → Option (String × List Char)
  | '"' :: '"' :: '"' :: r => readLongBasic [] (afterFirstBreak r)
  | '\'' :: '\'' :: '\'' :: r => readLongLiteral [] (afterFirstBreak r)
  | '"' :: r => readBasic [] r
  | '\'' :: r => readLiteral r
  | _ => none

/-- Digits, with single separators between them. -/
def takeDigits (isDigit : Char → Bool) : List Char → List Char × List Char
  | [] => ([],[])
  | '_' :: c :: r =>
    if isDigit c then
      let t := takeDigits isDigit r
      (c :: t.1,t.2)
    else ([],'_' :: c :: r)
  | c :: r =>
    if isDigit c then
      let t := takeDigits isDigit r
      (c :: t.1,t.2)
    else ([],c :: r)

def readDigits (isDigit : Char → Bool) : List Char → Option (List Char × List Char)
  | c :: r => if isDigit c then some (takeDigits isDigit (c :: r)) else none
  | [] => none

/-- The whole part of a decimal number, without zeros before other digits. -/
def readWhole : List Char → Option (List Char × List Char)
  | '0' :: r => some (['0'],r)
  | s => readDigits Char.isDigit s

def readSign : List Char → Option Bool × List Char
  | '-' :: r => (some true,r)
  | '+' :: r => (some false,r)
  | r => (none,r)

def readFraction : List Char → Option (List Char × List Char)
  | '.' :: r => readDigits Char.isDigit r
  | _ => none

def readExponent : List Char → Option (Int × List Char)
  | [] => none
  | c :: r =>
    if c = 'e' || c = 'E' then
      let (sign,r) := readSign r
      (readDigits Char.isDigit r).map fun d =>
        let n : Int := Json.digitsValue d.1
        (if sign == some true then -n else n,d.2)
    else none

/-- The characters of `s` before `rest`. -/
def spelled (s rest : List Char) : String := String.ofList (s.take (s.length - rest.length))

/-- Whether `n` fits a signed word of 64 bits. -/
def isWord (n : Int) : Bool := -Int.ofNat (Nat.pow 2 63) ≤ n && n < Int.ofNat (Nat.pow 2 63)

def ofInt? (n : Int) (rest : List Char) : Option (Value × List Char) :=
  if isWord n then some (.int n,rest) else none

/-- A number in another base, behind its mark. -/
def readBased (base : Nat) (s : List Char) : Option (Value × List Char) := do
  let isDigit (c : Char) : Bool := (Json.hexValue? c).any (· < base)
  let (digits,r) ← readDigits isDigit s
  let n := (digits.filterMap Json.hexValue?).foldl (fun n d => n*base + d) 0
  ofInt? n r

/-- A decimal number; a positive one must not exceed the largest double. -/
def readDecimal (s : List Char) : Option (Value × List Char) := do
  let (sign,r) := readSign s
  match r with
  | 'i' :: 'n' :: 'f' :: r => return (.real (spelled s r),r)
  | 'n' :: 'a' :: 'n' :: r => return (.real (spelled s r),r)
  | _ =>
    let (whole,r) ← readWhole r
    match readFraction r, readExponent r with
    | none, none =>
      let n : Int := Json.digitsValue whole
      ofInt? (if sign == some true then -n else n) r
    | none, some (e,r) => real sign whole [] e r
    | some (fraction,r), _ =>
      match readExponent r with
      | some (e,r) => real sign whole fraction e r
      | none => real sign whole fraction 0 r
where
  real (sign : Option Bool) (whole fraction : List Char) (e : Int) (r : List Char) :
      Option (Value × List Char) :=
    if sign == some true || Double.holds (Json.digitsValue (whole ++ fraction)) (e - fraction.length) then
      some (.real (spelled s r),r)
    else none

def readNumber : List Char → Option (Value × List Char)
  | '0' :: 'x' :: r => readBased 16 r
  | '0' :: 'o' :: r => readBased 8 r
  | '0' :: 'b' :: r => readBased 2 r
  | s => readDecimal s

/-- A number of exactly two digits up to a bound. -/
def readPair (least most : Nat) : List Char → Option (Nat × List Char)
  | a :: b :: r =>
    let n := Json.digitsValue [a,b]
    if a.isDigit && b.isDigit && least ≤ n && n ≤ most then some (n,r) else none
  | _ => none

def readMark (c : Char) : List Char → Option (List Char)
  | x :: r => if x = c then some r else none
  | [] => none

def daysIn (year month : Nat) : Nat :=
  if month = 2 then
    if year % 4 = 0 && (year % 100 != 0 || year % 400 = 0) then 29 else 28
  else if month = 4 || month = 6 || month = 9 || month = 11 then 30
  else 31

def readDay (s : List Char) : Option (List Char) := do
  let (century,r) ← readPair 0 99 s
  let (years,r) ← readPair 0 99 r
  let (month,r) ← readPair 1 12 (← readMark '-' r)
  let (_,r) ← readPair 1 (daysIn (century*100 + years) month) (← readMark '-' r)
  return r

/-- The time of day, with seconds and perhaps a fraction of them. -/
def readClock (s : List Char) : Option (List Char) := do
  let (_,r) ← readPair 0 23 s
  let (_,r) ← readPair 0 59 (← readMark ':' r)
  let (_,r) ← readPair 0 60 (← readMark ':' r)
  match r with
  | '.' :: c :: r => if c.isDigit then return r.dropWhile Char.isDigit else none
  | _ => return r

def readOffset : List Char → Option (List Char)
  | [] => none
  | c :: r => do
    if c = 'Z' || c = 'z' then return r
    else if c = '+' || c = '-' then
      let (_,r) ← readPair 0 23 r
      let (_,r) ← readPair 0 59 (← readMark ':' r)
      return r
    else none

/-- A day, a time of day, or both with perhaps an offset. -/
def readMoment (s : List Char) : Option (Value × List Char) :=
  match readDay s with
  | none => (readClock s).map fun r => (Value.moment (spelled s r),r)
  | some [] => some (Value.moment (spelled s []),[])
  | some (c :: r) =>
    let clock := if c = 'T' || c = 't' || c = ' ' then readClock r else none
    match clock with
    | none => some (Value.moment (spelled s (c :: r)),c :: r)
    | some r =>
      let r := (readOffset r).getD r
      some (Value.moment (spelled s r),r)

def readScalar (s : List Char) : Option (Value × List Char) :=
  match s with
  | '"' :: _ => (readText s).map fun p => (.text p.1,p.2)
  | '\'' :: _ => (readText s).map fun p => (.text p.1,p.2)
  | 't' :: 'r' :: 'u' :: 'e' :: r => some (.flag true,r)
  | 'f' :: 'a' :: 'l' :: 's' :: 'e' :: r => some (.flag false,r)
  | _ => (readMoment s).or (readNumber s)

end ImportResolution.Toml
