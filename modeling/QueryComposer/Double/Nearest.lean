import QueryComposer.Double.Basic

/-!
# The number nearest to a decimal

A decimal `digits * 10 ^ exponent` is read as the double nearest to it, and a decimal halfway
between two neighbours as the one with the even significand.  The arithmetic is exact: the decimal
is a quotient of whole numbers, the binary exponent is found from its size, and one rounded division
gives the significand.
-/

namespace QueryComposer.Double

/-- The quotient rounded to the nearest whole number, a half to the even one. -/
def roundedQuotient (numerator denominator : Nat) : Nat :=
  let quotient := numerator / denominator
  let twice := 2 * (numerator % denominator)
  if twice < denominator then quotient
  else if denominator < twice then quotient + 1
  else quotient + quotient % 2

/-- `n * 2 ^ e / d`, rounded. -/
def scaledQuotient (n d : Nat) (e : Int) : Nat :=
  roundedQuotient (n * Nat.pow 2 e.toNat) (d * Nat.pow 2 (-e).toNat)

/-- The exponent of two at which the quotient `n / d` has a significand of 53 binary digits, or the
least exponent there is when that is larger. -/
def fittingExponent (n d : Nat) : Int :=
  let guess : Int := (Nat.log2 n : Int) - (Nat.log2 d : Int) - 53
  let fits := n * Nat.pow 2 (-(guess + 53)).toNat < d * Nat.pow 2 (guess + 53).toNat
  max (-1074) (if fits then guess else guess + 1)

/-- The rank of the magnitude nearest to `n / d`; it may lie beyond the ranks of finite numbers. -/
def nearestRank (n d : Nat) : Nat :=
  if n = 0 then 0
  else
    let e := fittingExponent n d
    (e + 1074).toNat * blockSize + scaledQuotient n d (-e)

/-- The number of decimal digits of a whole number. -/
def digitCount (n : Nat) : Nat := (Nat.toDigits 10 n).length

/-- The number nearest to `digits * 10 ^ exponent`, with the given sign.  Magnitudes from
`10 ^ 310` on are infinite and those below `10 ^ -330` are zero, so no power of ten that is out of
proportion is ever computed. -/
def ofDecimal (negative : Bool) (digits : Nat) (exponent : Int) : Double :=
  let magnitude : Int := digitCount digits + exponent
  if digits = 0 ∨ magnitude < -330 then ofRank negative 0
  else if 310 < magnitude then .infinite negative
  else
    let numerator := digits * Nat.pow 10 exponent.toNat
    let denominator := Nat.pow 10 (-exponent).toNat
    ofRank negative (nearestRank numerator denominator)

end QueryComposer.Double
