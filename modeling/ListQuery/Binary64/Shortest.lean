import ListQuery.Binary64.Basic
import ListQuery.Text.Blank
import ListQuery.Text.DecimalDigit
/-!
# The shortest decimal that reads back

A magnitude has the fewest digits for which some decimal lies in the interval of numbers that round to it; of two such
decimals the nearer one is taken, and on a tie the even one.  The search tries one grid of decimals after the other, from
the coarsest on, and looks at the two neighbours of the magnitude on each.
-/
namespace ListQuery.Binary64

/-- The count of digits before the decimal point; zero or negative for a magnitude below a tenth.  No magnitude is below
10⁻⁴⁰⁰, so moving the point by 400 places leaves a whole number of at least one digit. -/
def pointPlace (rank : Nat) : Int := (decimal (units rank * Nat.pow 10 400 / unitsInOne)).length - 400

def tenTo (k : Int) : Nat × Nat := if k < 0 then (1, Nat.pow 10 (-k).toNat) else (Nat.pow 10 k.toNat, 1)

/-- Whether `c * 10 ^ k` rounds to the magnitude of `rank`: it lies between the midpoints to the two neighbours, and on a
midpoint only if the rank is even. -/
def readsBack (rank c : Nat) (k : Int) : Bool :=
  let (n, d) := tenTo k
  let point := 2 * unitsInOne * c * n
  let low := (units (rank - 1) + units rank) * d
  let high := (units rank + units (rank + 1)) * d
  if rank % 2 = 0 then low ≤ point && point ≤ high else low < point && point < high

/-- The distance of `c * 10 ^ k` from the magnitude of `rank`, in a unit that depends on `k` alone. -/
def distance (rank c : Nat) (k : Int) : Nat :=
  let (n, d) := tenTo k
  ((unitsInOne * c * n : Int) - (units rank * d : Int)).natAbs

/-- The multiple of `10 ^ k` next to a magnitude that reads back, if one of its two neighbours does. -/
def onGrid? (rank : Nat) (k : Int) : Option Nat :=
  let (n, d) := tenTo k
  let c := units rank * d / (unitsInOne * n)
  match readsBack rank c k, readsBack rank (c + 1) k with
  | false, false => none
  | true, false => some c
  | false, true => some (c + 1)
  | true, true =>
    match compare (distance rank c k) (distance rank (c + 1) k) with
    | .lt => some c
    | .gt => some (c + 1)
    | .eq => some (c + c % 2)

/-- The first grid with a decimal that reads back, from the coarsest of `10 ^ k` on. -/
def firstOnGrid (rank : Nat) : (tries : Nat) → (k : Int) → Nat × Int
  | 0, k => (0, k)
  | tries + 1, k =>
    match onGrid? rank k with
    | some c => (c, k)
    | none => firstOnGrid rank tries (k - 1)

/-- The digits of a magnitude without trailing zeros, and the count of digits before the point.  Seventeen digits are
always enough. -/
def shortest (rank : Nat) : List Char × Int :=
  let (c, k) := firstOnGrid rank 17 (pointPlace rank - 1)
  let digits := decimal c
  (dropTrailing (· == '0') digits, digits.length + k)

end ListQuery.Binary64
