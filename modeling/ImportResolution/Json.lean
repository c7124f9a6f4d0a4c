import ImportResolution.Text

/-! JSON values. Objects keep their members in the order of the text, repeats included. -/
namespace ImportResolution

inductive Json
  | null
  | bool (b : Bool)
  /-- An integer written without fraction and exponent. -/
  | int (n : Int)
  /-- The number `mantissa * 10 ^ exponent`, written with a fraction or exponent. -/
  | decimal (mantissa exponent : Int)
  | str (s : String)
  | arr (xs : List Json)
  | obj (members : List (String × Json))
  deriving Inhabited, BEq

namespace Json

/-- The member under a key; of repeats the last. -/
def member? (key : String) : Json → Option Json
  | obj ms => ms.reverse.lookup key
  | _ => none

def str? : Json → Option String
  | str s => some s
  | _ => none

def nat? : Json → Option Nat
  | int n => if n ≥ 0 then some n.toNat else none
  | _ => none

def int? : Json → Option Int
  | int n => some n
  | _ => none

def bool? : Json → Option Bool
  | bool b => some b
  | _ => none

def arr? : Json → Option (List Json)
  | arr xs => some xs
  | _ => none

def obj? : Json → Option (List (String × Json))
  | obj ms => some ms
  | _ => none

def ofOption {α : Type} (f : α → Json) : Option α → Json
  | some a => f a
  | none => null

def optStr (s : Option String) : Json := ofOption str s
def nat (n : Nat) : Json := int n
def strs (xs : List String) : Json := arr (xs.map str)

end Json
end ImportResolution
