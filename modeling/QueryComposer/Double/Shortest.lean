import QueryComposer.Double.Basic

/-!
# The fewest digits that identify a number

A positive magnitude is written with the fewest decimal digits that read back to it, and of the
decimals with that many digits the nearest.

Everything is measured in one unit.  Let a *quarter* be a quarter of the magnitude's last binary
place.  Some power of ten makes the quarter a whole number, so the magnitude (`4 * significand`
quarters) and the two ends of the interval of reals that round to it are whole numbers as well.  On
the grid of multiples of `10 ^ j` the magnitude has two neighbours, and the grid holds a decimal of
the interval only if one of the two lies in it; the coarsest such grid gives the digits.
-/

namespace QueryComposer.Double

/-- Which of two equally near decimals is taken. -/
inductive Tie where
  /-- The one whose last digit is even. -/
  | toEven
  /-- The larger one. -/
  | upward
deriving DecidableEq

/-- The decimal `digits * 10 ^ exponent`. -/
structure Decimal where
  /-- The digits, as a whole number. -/
  digits : Nat
  /-- The place of the last digit. -/
  exponent : Int
deriving DecidableEq

/-- A magnitude and the reals that round to it, as whole multiples of `10 ^ -places`. -/
structure Interval where
  /-- The magnitude itself. -/
  value : Nat
  /-- The lower end. -/
  low : Nat
  /-- The upper end. -/
  high : Nat
  /-- Whether the ends round to the magnitude too. -/
  closed : Bool
  /-- The number of decimal places of the unit. -/
  places : Nat

namespace Interval

/-- The interval of the reals that round to the magnitude of rank `r`.  The gap below a power of two
is half as wide as the gap above it, and the ends belong to the interval when the significand is
even. -/
def ofRank (r : Nat) : Interval :=
  let m := significand r
  let q := exponent r
  let places := (2 - q).toNat
  let quarter := if q < 2 then Nat.pow 5 places else Nat.pow 2 (q - 2).toNat
  let narrow := r % blockSize == 0 && blockSize < r
  { value := 4 * m * quarter
    low := (if narrow then 4 * m - 1 else 4 * m - 2) * quarter
    high := (4 * m + 2) * quarter
    closed := m % 2 == 0
    places }

/-- Whether `n` units read back to the magnitude. -/
def contains (i : Interval) (n : Nat) : Bool :=
  if i.closed then i.low ≤ n && n ≤ i.high else i.low < n && n < i.high

/-- The multiple of `10 ^ j` that reads back to the magnitude and is nearest to it, if there is one,
divided by `10 ^ j`. -/
def candidate (i : Interval) (tie : Tie) (j : Nat) : Option Nat :=
  let grid := Nat.pow 10 j
  let below := i.value / grid
  let above := below + 1
  match i.contains (below * grid), i.contains (above * grid) with
  | false, false => none
  | true, false => some below
  | false, true => some above
  | true, true =>
    let twice := 2 * i.value
    let middle := (below + above) * grid
    if twice < middle then some below
    else if middle < twice then some above
    else
      match tie with
      | .toEven => some (if below % 2 = 0 then below else above)
      | .upward => some above

/-- The decimal from the coarsest of the grids `10 ^ j, …, 10 ^ 0` that has a candidate. -/
def search (i : Interval) (tie : Tie) : (j : Nat) → Decimal
  | 0 => ⟨i.value, -i.places⟩
  | j + 1 =>
    match i.candidate tie (j + 1) with
    | none => search i tie j
    | some digits => ⟨digits, (j + 1 : Nat) - i.places⟩

end Interval

/-- The shortest decimal that reads back to the magnitude of rank `r`; zero is the digit `0`. -/
def shortest (tie : Tie) (r : Nat) : Decimal :=
  if r = 0 then ⟨0, 0⟩
  else
    let i := Interval.ofRank r
    let d := i.search tie ((Nat.toDigits 10 i.value).length - 1)
    -- The neighbour above nine units of the first grid is one unit of the next.
    if d.digits = 10 then ⟨1, d.exponent + 1⟩ else d

end QueryComposer.Double
