import ListQuery.Binary64.Rounding
import ListQuery.Text.Blank
import ListQuery.Text.DecimalDigit
/-!
# Numerals

The parts of a numeral, each read off the front of a text, and two lenient readers that take the longest numeral a text
begins with and ignore what follows.
-/
namespace ListQuery

/-! ## Parts -/

def digitRun (digit : Char → Bool) (cs : List Char) : List Char × List Char := (cs.takeWhile digit, cs.dropWhile digit)

def signPart : List Char → Bool × List Char
  | '-' :: rest => (true, rest)
  | '+' :: rest => (false, rest)
  | cs => (false, cs)

def minusPart : List Char → Bool × List Char
  | '-' :: rest => (true, rest)
  | cs => (false, cs)

/-- The digits of an integer with no needless zero: a zero alone, or digits that begin with no zero. -/
def wholePart? : List Char → Option (List Char × List Char)
  | '0' :: rest => some (['0'], rest)
  | cs =>
    match digitRun Char.isDigit cs with
    | ([], _) => none
    | run => some run

def fractionPart? (digit : Char → Bool) : List Char → Option (List Char × List Char)
  | '.' :: rest =>
    match digitRun digit rest with
    | ([], _) => none
    | run => some run
  | _ => none

def exponentPart? (digit : Char → Bool) : List Char → Option (Int × List Char)
  | e :: rest =>
    if e = 'e' ∨ e = 'E' then
      let (negative, body) := signPart rest
      match digitRun digit body with
      | ([], _) => none
      | (digits, behind) => some (if negative then -(ofDigits digits : Int) else ofDigits digits, behind)
    else none
  | [] => none

structure Numeral where
  negative : Bool
  whole : List Char
  fraction : List Char
  exponent : Int

def Numeral.toInt (n : Numeral) : Int := if n.negative then -(ofDigits n.whole : Int) else ofDigits n.whole

def Numeral.toBinary64 (n : Numeral) : Binary64 :=
  .ofDecimal n.negative (ofDigits (n.whole ++ n.fraction)) (n.exponent - n.fraction.length)

/-! ## Lenient readers -/

/-- The integer at the front of a text, behind blanks: a sign and digits of any script. -/
def leadingInteger? (cs : List Char) : Option Numeral :=
  let (negative, body) := signPart (cs.dropWhile isBlank)
  match body.takeWhile isDecimalDigit with
  | [] => none
  | whole => some ⟨negative, whole, [], 0⟩

def mantissa? (cs : List Char) : Option ((List Char × List Char) × List Char) :=
  match digitRun isDecimalDigit cs with
  | ([], _) => (fractionPart? isDecimalDigit cs).map fun (fraction, rest) => (([], fraction), rest)
  | (whole, '.' :: rest) =>
    let (fraction, behind) := digitRun isDecimalDigit rest
    some ((whole, fraction), behind)
  | (whole, rest) => some ((whole, []), rest)

/-- The decimal number at the front of a text, behind blanks, or the word `Infinity` with its sign. -/
def leadingNumber? (cs : List Char) : Option Binary64 :=
  let (negative, body) := signPart (cs.dropWhile isBlank)
  match mantissa? body with
  | some ((whole, fraction), rest) =>
    let exponent := ((exponentPart? isDecimalDigit rest).map Prod.fst).getD 0
    some (Numeral.toBinary64 ⟨negative, whole, fraction, exponent⟩)
  | none => if "Infinity".toList.isPrefixOf body then some (.infinite negative) else none

end ListQuery
