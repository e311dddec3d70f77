/-!
# Why a text is not JSON

A complaint is about one place in the text, given by line, column and offset in characters.  Two refusals have no place:
nesting that is too deep, and an integer with too many digits.
-/
namespace ListQuery.Json

inductive Complaint where
  | byteOrderMark
  | valueExpected
  | nameExpected
  | colonExpected
  | commaExpected
  | extraData
  | unterminatedString
  | controlCharacter
  | unknownEscape
  | badCodePoint
  deriving DecidableEq

def Complaint.text : Complaint → String
  | byteOrderMark => "Unexpected UTF-8 BOM (decode using utf-8-sig)"
  | valueExpected => "Expecting value"
  | nameExpected => "Expecting property name enclosed in double quotes"
  | colonExpected => "Expecting ':' delimiter"
  | commaExpected => "Expecting ',' delimiter"
  | extraData => "Extra data"
  | unterminatedString => "Unterminated string starting at"
  | controlCharacter => "Invalid control character at"
  | unknownEscape => "Invalid \\escape"
  | badCodePoint => "Invalid \\uXXXX escape"

structure Place where
  line : Nat
  column : Nat
  offset : Nat
  deriving DecidableEq

def Place.behind (cs : List Char) (offset : Nat) : Place :=
  let passed := cs.take offset
  { line := passed.count '\n' + 1
    column := (passed.reverse.takeWhile (· != '\n')).length + 1
    offset }

inductive Fault where
  | malformed (complaint : Complaint) (place : Place)
  | tooManyDigits (count : Nat)
  | tooDeep
  deriving DecidableEq

def maxIntegerDigits : Nat := 4300

def Fault.message : Fault → String
  | malformed complaint place =>
    complaint.text ++ s!": line {place.line} column {place.column} (char {place.offset})"
  | tooManyDigits count =>
    s!"Exceeds the limit ({maxIntegerDigits} digits) for integer string conversion: value has {count} digits; " ++
      "use sys.set_int_max_str_digits() to increase the limit"
  | tooDeep => "nested too deep"

end ListQuery.Json
