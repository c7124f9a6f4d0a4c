import ImportResolution.Text.Case
import ImportResolution.Toml.Scalar

/-! Settings in environment variables. Behind the mark `IG_` a name is folded to lower case, and two
underscores lead one table down. A value that is not in the grammar below stands for its own text. -/
namespace ImportResolution.Environment
open Toml

def mark : List Char := "ig_".toList

def isAsciiBlank (c : Char) : Bool :=
  c = ' ' || c = '\t' || c = '\n' || c = '\r' || c.toNat = 12
def skipBlank (s : List Char) : List Char := s.dropWhile isAsciiBlank

def isWordChar (c : Char) : Bool :=
  !(c = ',' || c = '\x7b' || c = '\x7d' || c = '[' || c = ']')

def skipDigits (s : List Char) : List Char := s.dropWhile Char.isDigit
def startsWithDigit (s : List Char) : Bool := s.head?.any Char.isDigit

/-- A decimal number with perhaps a point and an exponent; one side of the point may be empty. -/
def isDecimal (s : List Char) : Bool :=
  let whole := (readSign s).2
  let (some?,r) := match skipDigits whole with
    | '.' :: r => (startsWithDigit whole || startsWithDigit r,skipDigits r)
    | r => (startsWithDigit whole,r)
  some? && match r with
    | [] => true
    | c :: r =>
      let r := (readSign r).2
      (c = 'e' || c = 'E') && startsWithDigit r && (skipDigits r).isEmpty

/-- An integer that fits a word of 64 bits, with its sign or without. -/
def integer? (s : List Char) : Option Int :=
  let (sign,ds) := readSign s
  if ds.isEmpty || !ds.all Char.isDigit then none
  else
    let n := Json.digitsValue ds
    if sign == some true then if n ≤ Nat.pow 2 63 then some (-(n : Int)) else none
    else if n < Nat.pow 2 64 then some n else none

def word (s : List Char) : Value :=
  let w := Text.trimChars Text.isBlank s
  if w.contains '.' && isDecimal w then .real (String.ofList w)
  else
    match integer? w with
    | some n => .int n
    | none => .text (String.ofList w)

/-- The characters at the front that fit into so many bytes of UTF-8. -/
def takeBytes : Nat → List Char → List Char
  | _, [] => []
  | n, c :: r => if c.utf8Size ≤ n then c :: takeBytes (n - c.utf8Size) r else []

/-- The rest of a text behind its opening quote. Of what stands before the first escape, as many bytes
are kept as it has characters. -/
def readQuoted (s : List Char) : Option (String × List Char) :=
  let plain := s.takeWhile fun c => c != '"' && c != '\\'
  let r := s.drop plain.length
  if !plain.all isPlain then none
  else if r.head? == some '\\' then readBasic (takeBytes plain.length plain).reverse r
  else readBasic plain.reverse r

def isKeyChar (c : Char) : Bool := c.isAlphanum || c = '_' || c = '-'

def readKey (s : List Char) : Option (String × List Char) :=
  match s with
  | '"' :: r => readQuoted r
  | _ =>
    let name := s.takeWhile isKeyChar
    if name.isEmpty then none else some (String.ofList name,s.dropWhile isKeyChar)

mutual

def readValue : Nat → List Char → Option (Value × List Char)
  | 0, _ => none
  | fuel+1, s => do
    let (v,r) ← match skipBlank s with
      | 't' :: 'r' :: 'u' :: 'e' :: r => some (Value.flag true,r)
      | 'f' :: 'a' :: 'l' :: 's' :: 'e' :: r => some (.flag false,r)
      | '\x7b' :: r => (readMembers fuel [] r).map fun p => (.table p.1,p.2)
      | '[' :: r => (readElements fuel [] r).map fun p => (.list p.1,p.2)
      | '"' :: r => (readQuoted r).map fun p => (.text p.1,p.2)
      | '\'' :: c :: '\'' :: r => some (.text (String.singleton c),r)
      | '\'' :: _ => none
      | r => some (word (r.takeWhile isWordChar),r.dropWhile isWordChar)
    return (v,skipBlank r)

/-- The elements up to the closing bracket, which may follow a comma at once. -/
def readElements : Nat → List Value → List Char → Option (List Value × List Char)
  | _, done, ']' :: r => some (done.reverse,r)
  | 0, _, _ => none
  | fuel+1, done, s => do
    let (v,r) ← readValue fuel s
    match r with
    | ',' :: r => readElements fuel (v :: done) r
    | ']' :: r => return ((v :: done).reverse,r)
    | _ => none

def readMembers : Nat → List (String × Value) → List Char → Option (List (String × Value) × List Char)
  | _, done, '\x7d' :: r => some (done,r)
  | 0, _, _ => none
  | fuel+1, done, s => do
    let (key,r) ← readKey (skipBlank s)
    let r ← readMark '=' (skipBlank r)
    let (v,r) ← readValue fuel r
    match r with
    | ',' :: r => readMembers fuel (putMember key v done) r
    | '\x7d' :: r => return (putMember key v done,r)
    | _ => none

end

/-- Three steps of fuel cover each character. -/
def value (s : String) : Value :=
  match readValue (3*s.length + 3) s.toList with
  | some (v,[]) => v
  | _ => .text s

/-- Two underscores become a step down, from left to right. -/
def splitSteps : List Char → List Char
  | '_' :: '_' :: r => '.' :: splitSteps r
  | c :: r => c :: splitSteps r
  | [] => []

/-- The path of tables that a variable names, when it is one of this program and no step is blank. -/
def path? (name : String) : Option (List String) := do
  let name := Text.trim name
  let rest ← Text.afterHead? (String.ofList mark) (Text.lowerAscii name)
  let key := String.ofList (name.toList.drop (name.length - rest.length))
  let key := Text.trim (String.ofList (splitSteps (Text.lower key).toList))
  let steps := Text.splitOn '.' key
  if steps.contains "" then none else some steps

def nest (v : Value) : List String → Value
  | [] => v
  | step :: r => .table [(step,nest v r)]

/-- All variables laid into one table, a later one above those before it. -/
def layer (settings : List (String × String)) : List (String × Value) :=
  settings.foldl
    (fun below e => match path? e.1 with
      | some (step :: r) => Value.mergeMembers [(step,nest (value e.2) r)] below
      | _ => below) []

end ImportResolution.Environment
