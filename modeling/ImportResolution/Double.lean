/-! Whole numbers as doubles hold them: 53 bits of significand, rounded to the nearest and a tie to
the even neighbour, and nothing at or above `2^1024`. -/
namespace ImportResolution.Double

/-- The quotient rounded to the nearest integer, a tie to the even one. -/
def roundQuotient (num den : Nat) : Nat :=
  let q := num / den
  let r := num % den
  if 2*r < den then q else if 2*r > den then q + 1 else if q % 2 = 0 then q else q + 1

/-- The distance of neighbours around `n`. -/
def spacing (n : Nat) : Nat := Nat.pow 2 (n.log2 - 52)

/-- The double next to `n`, as if there were no largest one. -/
def nearest (n : Nat) : Nat := roundQuotient n (spacing n) * spacing n

def overflow : Nat := Nat.pow 2 1024

/-- Whether the product of the doubles next to `significand` and to `10 ^ exponent` is one. Small
significands alone are asked about, and those a negative power only makes smaller. -/
def hasProduct (significand : Nat) (exponent : Int) : Bool :=
  significand = 0 || exponent < 0
    || (exponent ≤ 308 && nearest (nearest significand * nearest (Nat.pow 10 exponent.toNat)) < overflow)

/-- The least number whose neighbour would be `2^1024`. -/
def bound : Nat := Nat.pow 2 1024 - Nat.pow 2 970

/-- Whether there is a double next to `mantissa * 10 ^ exponent`. -/
def holds (mantissa : Nat) (exponent : Int) : Bool :=
  mantissa = 0
    || (let size := (toString mantissa).length + exponent
        size ≤ 308
          || (size = 309
              && (if exponent < 0 then mantissa < bound * Nat.pow 10 exponent.natAbs
                  else mantissa * Nat.pow 10 exponent.toNat < bound)))

@[simp] theorem hasProduct_zero (exponent : Int) : hasProduct 0 exponent = true := by
  simp [hasProduct]
@[simp] theorem holds_zero (exponent : Int) : holds 0 exponent = true := by simp [holds]

theorem spacing_eq_one {n : Nat} (h : n.log2 ≤ 52) : spacing n = 1 := by
  simp [spacing,Nat.sub_eq_zero_of_le h]

/-- Short numbers are doubles themselves. -/
theorem nearest_eq_self {n : Nat} (h : n.log2 ≤ 52) : nearest n = n := by
  simp [nearest,spacing_eq_one h,roundQuotient,Nat.mod_one]

end ImportResolution.Double
