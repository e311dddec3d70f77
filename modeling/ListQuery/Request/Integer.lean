import ListQuery.Numeral
import ListQuery.Request.Problem
import ListQuery.Text.Split
/-!
# Integers in requests

Integers and truth values are taken as they are, floating point numbers if they are whole, and texts if they are numerals.
A *strict* numeral has no sign but a minus and no needless zero.  Any other text is tidied first, which takes away white
space, a plus sign, leading zeros, single underscores and a fraction of zeros, and what is left must be strict.
-/
namespace ListQuery

/-! ## Strict numerals -/

/-- The longest strict numeral that is converted, in characters, a minus included. -/
def maxNumeralLength : Nat := 4300

/-- Reads a text that is a strict numeral.  One that is too long is refused as such whatever stands behind it. -/
def readStrict (cs : List Char) : Except Rejection Int :=
  let (negative, body) := minusPart cs
  match wholePart? body with
  | none => .error .unreadableInteger
  | some (whole, rest) =>
    if maxNumeralLength < cs.length - rest.length then .error .tooLongInteger
    else if rest.isEmpty then .ok (Numeral.toInt ⟨negative, whole, [], 0⟩)
    else .error .unreadableInteger

/-! ## Tidying -/

/-- The text behind zeros, the last of which is given, and any underscores among them.  A minus may stand there.  A zero
stays in front of a decimal point, and where nothing follows, the last character stays. -/
def behindZeros? : (last : Char) → List Char → Option (List Char)
  | last, [] => some [last]
  | last, c :: rest =>
    if c = '0' ∨ c = '_' then behindZeros? c rest
    else if c = '.' then some (last :: c :: rest)
    else if c.isDigit ∨ c = '-' then some (c :: rest)
    else none

def dropZeros? : List Char → Option (List Char)
  | [] => none
  | c :: rest => if c = '0' then behindZeros? c rest else if c.isDigit then some (c :: rest) else none

/-- Drops a fraction that is a point with zeros behind it. -/
def withoutZeroFraction (cs : List Char) : List Char :=
  match cs.dropWhile (· != '.') with
  | _ :: '0' :: zeros => if zeros.all (· == '0') then cs.takeWhile (· != '.') else cs
  | _ => cs

/-- Drops underscores, each of which must stand alone between two other characters. -/
def withoutUnderscores? (cs : List Char) : Option (List Char) :=
  let groups := splitChars '_' cs
  if groups.any List.isEmpty then none else some groups.flatten

def tidied? (cs : List Char) : Option (List Char) := do
  let (negative, body) := signPart (trimChars isWhiteSpace cs)
  let digits ← withoutUnderscores? (withoutZeroFraction (← dropZeros? body))
  return if negative then '-' :: digits else digits

/-- Reads a numeral.  Only one that needs no tidying is refused for its length. -/
def readInteger (cs : List Char) : Except Rejection Int :=
  match readStrict cs, tidied? cs with
  | .error .unreadableInteger, some tidy => (readStrict tidy).mapError fun _ => .unreadableInteger
  | result, _ => result

/-! ## Values -/

def decodeBytes? (octets : List UInt8) : Option String := String.fromUTF8? ⟨octets.toArray⟩

/-- The integer that a floating point number is.  Numbers of 2⁶³ and more are not taken. -/
def wholeNumber (x : Binary64) : Except Rejection Int :=
  match x with
  | .finite .. =>
    match x.toInt? with
    | none => .error .fractionalNumber
    | some n => if n.natAbs < Nat.pow 2 63 then .ok n else .error .tooLongInteger
  | _ => .error .infiniteNumber

def Value.requestInteger : Value → Except Rejection Int
  | int n => .ok n
  | bool b => .ok (if b then 1 else 0)
  | float x => wholeNumber x
  | str s => readInteger s.toList
  | bytes octets =>
    match decodeBytes? octets with
    | some s => readInteger s.toList
    | none => .error .unreadableInteger
  | _ => .error .notAnInteger

end ListQuery
