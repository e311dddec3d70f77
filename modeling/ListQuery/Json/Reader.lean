import ListQuery.Json.Fault
import ListQuery.Numeral
import ListQuery.Value.Basic
/-!
# Reading JSON

A value between blanks, with three words more than the standard has: `NaN`, `Infinity` and `-Infinity`.  A number without
fraction and exponent is an integer of any size; any other one is rounded to the nearest floating point number.  In an
object a repeated name keeps its first place and its last value.

A text is a row of characters here, and a surrogate that stands alone is none of them.  Texts with an escape of one are
left out of what is said about the values that are read: such an escape is passed over as any other is, but the value has
U+FFFD in its place, for every surrogate alike.  Whether a text is read, and where a reader stops, does not depend on it.

Every reader takes the text that is left and gives the value with the text behind it.  Where it stops, it hands back the
text from the place of the complaint on, which `read` turns into line and column.
-/
namespace ListQuery.Json

def maxDepth : Nat := 990

inductive Stop where
  | complaint (why : Complaint) (rest : List Char)
  | tooManyDigits (count : Nat)
  | tooDeep

abbrev Reader (α : Type) := List Char → Except Stop (α × List Char)

def isJsonBlank (c : Char) : Bool := c == ' ' || c == '\t' || c == '\n' || c == '\r'

def skipBlank (cs : List Char) : List Char := cs.dropWhile isJsonBlank

/-! ## Strings -/

def hexDigit? (c : Char) : Option Nat :=
  if c.isDigit then some (c.toNat - '0'.toNat)
  else if 'a' ≤ c ∧ c ≤ 'f' then some (c.toNat - 'a'.toNat + 10)
  else if 'A' ≤ c ∧ c ≤ 'F' then some (c.toNat - 'A'.toNat + 10)
  else none

def hexQuad? : List Char → Option (Nat × List Char)
  | a :: b :: c :: d :: rest => do
    return ((((← hexDigit? a) * 16 + (← hexDigit? b)) * 16 + (← hexDigit? c)) * 16 + (← hexDigit? d), rest)
  | _ => none

def isHighSurrogate (n : Nat) : Bool := 0xD800 ≤ n && n < 0xDC00
def isLowSurrogate (n : Nat) : Bool := 0xDC00 ≤ n && n < 0xE000

/-- The character of a code point.  A surrogate that stands alone has none, and texts that escape one are left out. -/
def charOf (n : Nat) : Char := if isHighSurrogate n || isLowSurrogate n then '\uFFFD' else Char.ofNat n

/-- Reads the code point behind `\u`, of which the text may not end.  Two escapes of a high and a low surrogate are one
character. -/
def readCodePoint : Reader Char := fun cs =>
  match hexQuad? cs with
  | none | some (_, []) => .error (.complaint .badCodePoint ('u' :: cs))
  | some (high, rest) =>
    match isHighSurrogate high, rest with
    | true, '\\' :: 'u' :: more =>
      if (more.drop 4).isEmpty then .ok (charOf high, rest)
      else
        match hexQuad? more with
        | none => .error (.complaint .badCodePoint ('u' :: more))
        | some (low, behind) =>
          if isLowSurrogate low then .ok (Char.ofNat (0x10000 + (high - 0xD800) * 0x400 + (low - 0xDC00)), behind)
          else .ok (charOf high, rest)
    | _, _ => .ok (charOf high, rest)

def readEscape (opening : List Char) : Reader Char
  | [] => .error (.complaint .unterminatedString opening)
  | 'u' :: rest => readCodePoint rest
  | c :: rest =>
    match c with
    | '"' | '\\' | '/' => .ok (c, rest)
    | 'b' => .ok ('\x08', rest)
    | 'f' => .ok ('\x0c', rest)
    | 'n' => .ok ('\n', rest)
    | 'r' => .ok ('\r', rest)
    | 't' => .ok ('\t', rest)
    | _ => .error (.complaint .unknownEscape ('\\' :: c :: rest))

/-- Reads a string up to the closing quote; `opening` is the text from its opening quote on. -/
def readString (opening : List Char) : (fuel : Nat) → Reader (List Char)
  | 0, _ | _, [] => .error (.complaint .unterminatedString opening)
  | fuel + 1, c :: rest =>
    if c = '"' then .ok ([], rest)
    else if c = '\\' then do
      let (d, rest) ← readEscape opening rest
      let (s, rest) ← readString opening fuel rest
      return (d :: s, rest)
    else if c.toNat < 0x20 then .error (.complaint .controlCharacter (c :: rest))
    else do
      let (s, rest) ← readString opening fuel rest
      return (c :: s, rest)

/-! ## Numbers -/

/-- Reads a number; without one, a value is missing at the place where it should begin. -/
def readNumber : Reader Value := fun cs =>
  let (negative, body) := minusPart cs
  match wholePart? body with
  | none => .error (.complaint .valueExpected cs)
  | some (whole, rest) =>
    let (fraction, behindFraction) := (fractionPart? Char.isDigit rest).getD ([], rest)
    match exponentPart? Char.isDigit behindFraction with
    | some (exponent, behind) => .ok (.float (Numeral.toBinary64 ⟨negative, whole, fraction, exponent⟩), behind)
    | none =>
      if !fraction.isEmpty then .ok (.float (Numeral.toBinary64 ⟨negative, whole, fraction, 0⟩), behindFraction)
      else if maxIntegerDigits < whole.length then .error (.tooManyDigits whole.length)
      else .ok (.int (Numeral.toInt ⟨negative, whole, [], 0⟩), rest)

def words : List (List Char × Value) :=
  [("null".toList, .null), ("true".toList, .bool true), ("false".toList, .bool false),
    ("NaN".toList, .float .nan), ("Infinity".toList, .float (.infinite false)),
    ("-Infinity".toList, .float (.infinite true))]

def readScalar : Reader Value := fun cs =>
  match words.findSome? fun w => (w.1.isPrefixOf? cs).map fun rest => (w.2, rest) with
  | some found => .ok found
  | none => readNumber cs

/-! ## Containers -/

def readItems (item : Reader Value) : (fuel : Nat) → Reader (List Value)
  | 0, cs => .error (.complaint .valueExpected cs)
  | fuel + 1, cs => do
    let (v, rest) ← item cs
    match skipBlank rest with
    | ']' :: rest => return ([v], rest)
    | ',' :: rest =>
      let (vs, rest) ← readItems item fuel (skipBlank rest)
      return (v :: vs, rest)
    | rest => .error (.complaint .commaExpected rest)

def readEntry (fuel : Nat) (item : Reader Value) : Reader (String × Value)
  | '"' :: rest => do
    let (name, rest) ← readString ('"' :: rest) fuel rest
    match skipBlank rest with
    | ':' :: rest =>
      let (v, rest) ← item (skipBlank rest)
      return ((String.ofList name, v), rest)
    | rest => .error (.complaint .colonExpected rest)
  | cs => .error (.complaint .nameExpected cs)

def readEntries (entry : Reader (String × Value)) : (fuel : Nat) → Reader (List (String × Value))
  | 0, cs => .error (.complaint .nameExpected cs)
  | fuel + 1, cs => do
    let (e, rest) ← entry cs
    match skipBlank rest with
    | '}' :: rest => return ([e], rest)
    | ',' :: rest =>
      let (es, rest) ← readEntries entry fuel (skipBlank rest)
      return (e :: es, rest)
    | rest => .error (.complaint .commaExpected rest)

/-- Reads a value, whose parts are read by `inner`; without it, containers are too deep. -/
def readWith (fuel : Nat) (inner : Option (Reader Value)) : Reader Value
  | '"' :: rest => do
    let (s, rest) ← readString ('"' :: rest) fuel rest
    return (.str (String.ofList s), rest)
  | '[' :: rest =>
    match inner, skipBlank rest with
    | none, _ => .error .tooDeep
    | some _, ']' :: rest => return (.list [], rest)
    | some item, rest => do
      let (vs, rest) ← readItems item fuel rest
      return (.list vs, rest)
  | '{' :: rest =>
    match inner, skipBlank rest with
    | none, _ => .error .tooDeep
    | some _, '}' :: rest => return (.map [], rest)
    | some item, rest => do
      let (es, rest) ← readEntries (readEntry fuel item) fuel rest
      return (.map (Value.mapOf es), rest)
  | cs => readScalar cs

/-- Reads a value in which containers stand in each other at most `depth` deep. -/
def readValue (fuel : Nat) : (depth : Nat) → Reader Value
  | 0 => readWith fuel none
  | depth + 1 => readWith fuel (some (readValue fuel depth))

/-! ## Whole texts -/

def Stop.fault (cs : List Char) : Stop → Fault
  | complaint why rest => .malformed why (.behind cs (cs.length - rest.length))
  | tooManyDigits count => .tooManyDigits count
  | tooDeep => .tooDeep

def readChars (cs : List Char) : Except Stop Value :=
  match cs with
  | '\uFEFF' :: _ => .error (.complaint .byteOrderMark cs)
  | _ => do
    let (v, rest) ← readValue cs.length maxDepth (skipBlank cs)
    match skipBlank rest with
    | [] => return v
    | rest => .error (.complaint .extraData rest)

def read (text : String) : Except Fault Value := (readChars text.toList).mapError (Stop.fault text.toList)

end ListQuery.Json
