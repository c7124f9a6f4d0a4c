import ImportResolution.Double
import ImportResolution.Json.Printer

/-! Decimals with a fixed number of places, rounded from binary fractions to the nearest, a tie to the
even neighbour. -/
namespace ImportResolution

structure Decimal where
  negative : Bool
  unscaled : Nat
  places : Nat
  deriving DecidableEq, Repr

namespace Decimal

/-- Significand and binary exponent of a finite magnitude. -/
def significand (x : Float) : Nat × Int :=
  let bits : Nat := x.toBits.toNat % Nat.pow 2 63
  let exponent : Nat := bits / Nat.pow 2 52
  let fraction : Nat := bits % Nat.pow 2 52
  if exponent = 0 then (fraction,-1074) else (fraction + Nat.pow 2 52,Int.ofNat exponent - 1075)

def ofFloat (places : Nat) (x : Float) : Decimal :=
  let s := significand x
  let scaled := s.1 * Nat.pow 10 places
  let unscaled :=
    if s.2 ≥ 0 then scaled * Nat.pow 2 s.2.toNat else Double.roundQuotient scaled (Nat.pow 2 (-s.2).toNat)
  ⟨x < 0.0,unscaled,places⟩

/-- All places written out. -/
def text (d : Decimal) : String :=
  (if d.negative then "-" else "") ++ Json.pointed (toString d.unscaled).toList d.places

/-- The digits and places without zeros at the end. -/
def shorten : Nat → Nat → Nat × Nat
  | n, 0 => (n,0)
  | n, p+1 => if n % 10 = 0 then shorten (n/10) p else (n,p+1)

/-- The number without superfluous zeros. -/
def toJson (d : Decimal) : Json :=
  let s := shorten d.unscaled d.places
  .decimal (if d.negative then -(s.1 : Int) else s.1) (-(s.2 : Int))

end Decimal
end ImportResolution
