import ImportResolution.Json
import ImportResolution.Table

/-! JSON values as a document writes them. A text or a number may be written by the rules and still
stand for nothing; that is a fault only where it is read, and what a reader passes over is not. -/
namespace ImportResolution.Json

inductive Numeral
  | int (n : Int)
  /-- The number `mantissa * 10 ^ exponent`. -/
  | decimal (mantissa exponent : Int)
  /-- Infinite, or no number. -/
  | unbounded
  deriving DecidableEq, Repr

/-- A value; texts, keys and numbers that stand for nothing are absent. -/
inductive Written
  | null
  | flag (b : Bool)
  | text (s : Option String)
  | number (n : Option Numeral)
  | list (xs : List Written)
  | members (ms : List (Option String × Written))
  deriving Inhabited

/-- A piece of a text: a character, or a UTF-16 unit that is written by its number. -/
inductive TextUnit
  | char (c : Char)
  | code (n : Nat)
  deriving DecidableEq, Repr

def isHigh (n : Nat) : Bool := 0xD800 ≤ n && n < 0xDC00
def isLow (n : Nat) : Bool := 0xDC00 ≤ n && n < 0xE000

/-- Puts units together behind the characters in `done`, the last first. A surrogate counts only in a
pair whose halves stand side by side, and `join` says what the pair is. -/
def assembleFrom (join : Nat → Nat → Char) (done : List Char) : List TextUnit → Option String
  | [] => some (String.ofList done.reverse)
  | .char c :: r => assembleFrom join (c :: done) r
  | .code n :: .code m :: r =>
    if isHigh n then if isLow m then assembleFrom join (join n m :: done) r else none
    else if isLow n then none
    else assembleFrom join (Char.ofNat n :: done) (.code m :: r)
  | .code n :: r =>
    if isHigh n || isLow n then none else assembleFrom join (Char.ofNat n :: done) r

def assemble? (join : Nat → Nat → Char) (units : List TextUnit) : Option String :=
  assembleFrom join [] units

namespace Written

mutual

/-- The value itself, where all in it stands for something and at most `depth - 1` brackets enclose
any part. -/
def json? (depth : Nat) : Written → Option Json
  | .null => some .null
  | .flag b => some (.bool b)
  | .text s => s.map .str
  | .number n =>
    n.bind fun
      | .int n => some (.int n)
      | .decimal m e => some (.decimal m e)
      | .unbounded => none
  | .list xs => if depth ≤ 1 then none else (jsons? (depth-1) xs).map .arr
  | .members ms => if depth ≤ 1 then none else (jsonMembers? (depth-1) ms).map .obj

def jsons? (depth : Nat) : List Written → Option (List Json)
  | [] => some []
  | x :: r =>
    match json? depth x, jsons? depth r with
    | some v, some vs => some (v :: vs)
    | _, _ => none

def jsonMembers? (depth : Nat) : List (Option String × Written) → Option (List (String × Json))
  | [] => some []
  | m :: r =>
    match m.1, json? depth m.2, jsonMembers? depth r with
    | some key, some v, some vs => some ((key,v) :: vs)
    | _, _, _ => none

end

mutual

/-- Whether all in a value stands for something. -/
def isSound : Written → Bool
  | .text s => s.isSome
  | .number n => n.isSome
  | .list xs => areSound xs
  | .members ms => areSoundMembers ms
  | _ => true

def areSound : List Written → Bool
  | [] => true
  | x :: r => isSound x && areSound r

def areSoundMembers : List (Option String × Written) → Bool
  | [] => true
  | m :: r => m.1.isSome && isSound m.2 && areSoundMembers r

end

mutual

def ofJson : Json → Written
  | .null => .null
  | .bool b => .flag b
  | .int n => .number (some (.int n))
  | .decimal m e => .number (some (.decimal m e))
  | .str s => .text (some s)
  | .arr xs => .list (ofJsons xs)
  | .obj ms => .members (ofJsonMembers ms)

def ofJsons : List Json → List Written
  | [] => []
  | x :: r => ofJson x :: ofJsons r

def ofJsonMembers : List (String × Json) → List (Option String × Written)
  | [] => []
  | m :: r => (some m.1,ofJson m.2) :: ofJsonMembers r

end

def str? : Written → Option String
  | text s => s
  | _ => none

def int? : Written → Option Int
  | number (some (.int n)) => some n
  | _ => none

def list? : Written → Option (List Written)
  | list xs => some xs
  | _ => none

end Written
end ImportResolution.Json
