import ListQuery.Binary64.Basic
import ListQuery.Text.DecimalDigit
/-!
# Rounding to the nearest floating point number

A quotient of natural numbers is rounded to the nearest magnitude, and a tie to the one of even rank.  Decimals and
integers are quotients; division of two floating point numbers is the rounded quotient of their units.
-/
namespace ListQuery.Binary64

/-- A quotient rounded to the nearest natural number, a half to the even one. -/
def roundDiv (n d : Nat) : Nat :=
  let q := n / d
  let twice := 2 * (n % d)
  if twice < d then q else if d < twice then q + 1 else q + q % 2

/-- The rank nearest to a quotient.  The quotient is measured in the unit of its own last place, which is the smallest
unit up to 2⁵³ and doubles with every power of two above. -/
def rankOfRatio (n d : Nat) : Nat :=
  let shift := (n * unitsInOne / d).log2 - 52
  shift * Nat.pow 2 52 + roundDiv (n * unitsInOne) (d * Nat.pow 2 shift)

/-- The number nearest to a quotient; one that rounds beyond the finite magnitudes is infinite. -/
def ofRatio (negative : Bool) (n d : Nat) : Binary64 := ofRank negative (rankOfRatio n d)

def ofInt (n : Int) : Binary64 := ofRatio (decide (n < 0)) n.natAbs 1

/-- The number nearest to `digits * 10 ^ exponent`.  A decimal that is far out of range is not written out: beyond 10³¹⁰
it is infinite, and below 10⁻³³⁰ it is zero. -/
def ofDecimal (negative : Bool) (digits : Nat) (exponent : Int) : Binary64 :=
  let place := (decimal digits).length + exponent
  if digits = 0 ∨ place < -330 then ofRank negative 0
  else if 310 < place then infinite negative
  else if exponent < 0 then ofRatio negative digits (Nat.pow 10 (-exponent).toNat)
  else ofRatio negative (digits * Nat.pow 10 exponent.toNat) 1

def divide : Binary64 → Binary64 → Binary64
  | finite a r, finite b s => ofRatio (a != b) (units r) (units s)
  | finite a _, infinite b => ofRank (a != b) 0
  | infinite a, finite b _ => infinite (a != b)
  | _, _ => nan

end ListQuery.Binary64
