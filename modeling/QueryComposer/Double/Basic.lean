/-!
# Double-precision numbers

The 64-bit binary floating-point numbers, kept exactly.  The finite ones of either sign are counted
from zero upwards: the number of *rank* `r` is the `r`-th finite magnitude, and its value is
`significand r * 2 ^ exponent r`.  Ranks below `2 ^ 52` are the subnormal numbers and zero; from
there on each block of `2 ^ 52` ranks doubles the spacing.  Ranks make neighbours easy to speak of,
and no statement about a number needs machine arithmetic.
-/

namespace QueryComposer

/-- The number of ranks in a block, `2 ^ 52`. -/
abbrev Double.blockSize : Nat := 4503599627370496

/-- The number of magnitudes of finite numbers. -/
abbrev Double.rankCount : Nat := 2047 * Double.blockSize

/-- A 64-bit binary floating-point number. -/
inductive Double where
  /-- The finite number of the given sign and rank. -/
  | finite (negative : Bool) (rank : Nat) (rank_lt : rank < Double.rankCount)
  /-- Positive or negative infinity. -/
  | infinite (negative : Bool)
  /-- No number. -/
  | nan
deriving DecidableEq

namespace Double

/-- Positive zero. -/
def zero : Double := .finite false 0 (by decide)

instance : Inhabited Double := ⟨zero⟩

/-- The finite number of the given sign and rank, infinite when there is no such rank. -/
def ofRank (negative : Bool) (rank : Nat) : Double :=
  if h : rank < rankCount then .finite negative rank h else .infinite negative

/-- The number whose 64 bits are those of `bits`: a sign, and below it the rank, which has 63 bits
and so is less than 2048 blocks. -/
def ofBits (bits : Nat) : Double :=
  let negative := bits / (2048 * blockSize) % 2 == 1
  let rank := bits % (2048 * blockSize)
  if rank ≤ rankCount then ofRank negative rank else .nan

/-- The whole number that, times two to the `exponent`, is the magnitude of rank `r`. -/
def significand (r : Nat) : Nat :=
  if r < blockSize then r else blockSize + r % blockSize

/-- The exponent of two that belongs to the `significand` of rank `r`. -/
def exponent (r : Nat) : Int :=
  if r < blockSize then -1074 else (r / blockSize : Nat) - 1075

/-- Whether the number is neither infinite nor `nan`. -/
def isFinite : Double → Bool
  | .finite .. => true
  | _ => false

/-- Equality of numbers: the two zeros are equal, and `nan` equals nothing. -/
def equal : Double → Double → Bool
  | .finite s a _, .finite t b _ => a == b && (s == t || a == 0)
  | .infinite s, .infinite t => s == t
  | _, _ => false

instance : BEq Double := ⟨equal⟩

end Double

end QueryComposer
