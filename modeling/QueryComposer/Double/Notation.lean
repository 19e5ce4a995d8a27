import QueryComposer.Double.Shortest

/-!
# How numbers are written

A finite number is written with its shortest digits, either plainly, always with a point and a digit
on each side of it, or in exponent form.  A `Style` says where the plain form ends and how exponents
are signed; the texts and the payloads of this library differ in it.
-/

namespace QueryComposer.Double

/-- The decisions in the text of a number. -/
structure Style where
  /-- The least exponent of the first digit that is written plainly. -/
  plainFrom : Int
  /-- The first exponent of the first digit that is too large for the plain form. -/
  plainBelow : Int
  /-- Whether a positive exponent carries a sign. -/
  signsExponent : Bool
  /-- Which of two equally near decimals is written. -/
  tie : Tie

/-- The plain form of a decimal: the point stands behind, inside or before the digits. -/
def plain (digits : List Char) (exponent : Int) : List Char :=
  let whole := digits.length + exponent
  if 0 ≤ exponent then digits ++ List.replicate exponent.toNat '0' ++ ['.', '0']
  else if 0 < whole then digits.take whole.toNat ++ '.' :: digits.drop whole.toNat
  else '0' :: '.' :: (List.replicate (-whole).toNat '0' ++ digits)

/-- The exponent form: one digit before the point, and no point when it is the only digit. -/
def scientific (signsExponent : Bool) (digits : List Char) (leading : Int) : List Char :=
  let mantissa :=
    match digits with
    | [] => []
    | [d] => [d]
    | d :: rest => d :: '.' :: rest
  let sign := if leading < 0 then ['-'] else if signsExponent then ['+'] else []
  mantissa ++ 'e' :: (sign ++ Nat.toDigits 10 leading.natAbs)

/-- The text of a magnitude. -/
def Style.magnitude (style : Style) (r : Nat) : List Char :=
  let d := shortest style.tie r
  let digits := Nat.toDigits 10 d.digits
  let leading := d.exponent + digits.length - 1
  if style.plainFrom ≤ leading ∧ leading < style.plainBelow then plain digits d.exponent
  else scientific style.signsExponent digits leading

/-- The name of a number that is not finite. -/
def nonFiniteName : Double → String
  | .infinite true => "-inf"
  | .infinite false => "inf"
  | _ => "NaN"

/-- The text of a number; those that are not finite have names. -/
def Style.text (style : Style) : Double → String
  | .finite negative r _ =>
    String.ofList ((if negative then ['-'] else []) ++ style.magnitude r)
  | x => nonFiniteName x

end QueryComposer.Double
