/-!
# Binary floating point numbers of 64 bits

The finite magnitudes are numbered from zero upward by their *rank*: 2047 exponents of 2⁵² fractions each.  A rank is a
whole number of *units* of 2⁻¹⁰⁷⁴, and ranks are ordered as their units are, so that all arithmetic on finite numbers is
arithmetic on natural numbers.
-/
namespace ListQuery

def magnitudeCount : Nat := 2047 * Nat.pow 2 52

/-- A floating point number: its sign and the rank of its magnitude, an infinity, or no number at all. -/
inductive Binary64 where
  | nan
  | infinite (negative : Bool)
  | finite (negative : Bool) (rank : Fin magnitudeCount)
  deriving DecidableEq

namespace Binary64

/-! ## Ranks and units -/

def unitsInOne : Nat := Nat.pow 2 1074

theorem unitsInOne_pos : 0 < unitsInOne := by decide +kernel

def significand (rank : Nat) : Nat := if rank < Nat.pow 2 52 then rank else Nat.pow 2 52 + rank % Nat.pow 2 52

def power (rank : Nat) : Nat := rank / Nat.pow 2 52 - 1

/-- The magnitude of a rank in units. -/
def units (rank : Nat) : Nat := significand rank * Nat.pow 2 (power rank)

/-- A finite number in units; infinities and `nan` have none. -/
def signedUnits? : Binary64 → Option Int
  | finite negative rank => some (if negative then -(units rank : Int) else units rank)
  | _ => none

/-- The magnitude of a rank, or an infinity from the first rank that is too large. -/
def ofRank (negative : Bool) (rank : Nat) : Binary64 :=
  if h : rank < magnitudeCount then finite negative ⟨rank, h⟩ else infinite negative

/-- Neither of the two zeros, `nan` included. -/
def isNonzero : Binary64 → Bool
  | finite _ rank => rank.val != 0
  | _ => true

/-! ## Comparison

Numbers are compared by value: the two zeros are equal, and `nan` is equal to nothing and stands in no order. -/

def sameNumber : Binary64 → Binary64 → Bool
  | infinite a, infinite b => a == b
  | finite a r, finite b s => signedUnits? (finite a r) == signedUnits? (finite b s)
  | _, _ => false

def sameInt (x : Binary64) (n : Int) : Bool := x.signedUnits? == some (n * unitsInOne)

/-- The order against an integer, exact at any size; none for `nan`. -/
def compareInt? (x : Binary64) (n : Int) : Option Ordering :=
  match x with
  | nan => none
  | infinite negative => some (if negative then .lt else .gt)
  | finite negative rank =>
    some (compare (if negative then -(units rank : Int) else units rank) (n * unitsInOne))

/-! ## Integers near a number -/

def ceiling? (x : Binary64) : Option Int := x.signedUnits?.map fun u => -((-u) / unitsInOne)

def toInt? (x : Binary64) : Option Int :=
  x.signedUnits?.bind fun u => if u % unitsInOne = 0 then some (u / unitsInOne) else none

end Binary64
end ListQuery
