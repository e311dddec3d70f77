import ListQuery.Binary64.Shortest
/-!
# The text of a floating point number

A layout says which decimals are written out and which take an exponent.  The texts of numbers follow one layout,
`standardLayout`.
-/
namespace ListQuery.Binary64

/-- How the digits of a decimal are laid out.  Exponents from `leastPositional` on and below `leastScientific` are
written out, with at least one digit on either side of the point; the others stand behind an `e`, with a sign. -/
structure Layout where
  leastPositional : Int
  leastScientific : Int
  exponentDigits : Nat

/-- Decimal exponents from -4 to 15 are written out, and others have at least two digits. -/
def standardLayout : Layout := ⟨-4, 16, 2⟩

def zeros (n : Int) : List Char := List.replicate n.toNat '0'

def positional (digits : List Char) (place : Int) : List Char :=
  if place ≤ 0 then '0' :: '.' :: zeros (-place) ++ digits
  else if digits.length ≤ place then digits ++ zeros (place - digits.length) ++ ['.', '0']
  else digits.take place.toNat ++ '.' :: digits.drop place.toNat

def scientific (exponentDigits : Nat) (digits : List Char) (exponent : Int) : List Char :=
  let mantissa :=
    match digits with
    | first :: second :: rest => first :: '.' :: second :: rest
    | _ => digits
  mantissa ++ 'e' :: (if exponent < 0 then '-' else '+') :: zeroFilled exponentDigits (decimal exponent.natAbs)

def Layout.text (l : Layout) (digits : List Char) (place : Int) : List Char :=
  let exponent := place - 1
  if l.leastPositional ≤ exponent ∧ exponent < l.leastScientific then positional digits place
  else scientific l.exponentDigits digits exponent

def magnitudeText (rank : Nat) : List Char :=
  if rank = 0 then ['0', '.', '0']
  else
    let (digits, place) := shortest rank
    standardLayout.text digits place

def text : Binary64 → String
  | nan => "nan"
  | infinite negative => if negative then "-inf" else "inf"
  | finite negative rank => String.ofList ((if negative then ['-'] else []) ++ magnitudeText rank)

end ListQuery.Binary64
