import ListQuery.Fault
import ListQuery.Json.Reader
import ListQuery.Schema.Field
import ListQuery.Timestamp.Reader
/-!
# Raw text as a value of a field

A request gives values as raw text, and the scalar type of a field says how that text is read.  Reading never fails for
the text's sake: what cannot be read becomes a value that no row has, `nan` for a number and the marker `badTime` for a
timestamp.
-/
namespace ListQuery

inductive Primitive where
  | text
  | integer
  | decimal
  | boolean
  | timestamp
  | json

/-- The primitive of a type name; a type that is not known is read as text. -/
def Primitive.named (type : String) : Primitive :=
  if type = "Int" ∨ type = "BigInt" then .integer
  else if type = "Float" ∨ type = "Decimal" then .decimal
  else if type = "Boolean" then .boolean
  else if type = "DateTime" then .timestamp
  else if type = "Json" then .json
  else .text

namespace Raw

/-- The integer that the text begins with.  One with too many digits to be converted is rounded. -/
def integer (raw : String) : Value :=
  match leadingInteger? raw.toList with
  | none => .float .nan
  | some n => if n.whole.length ≤ Json.maxIntegerDigits then .int n.toInt else .float n.toBinary64

def decimal (raw : String) : Value := .float ((leadingNumber? raw.toList).getD .nan)

def boolean (raw : String) : Value := .bool (raw.toLower ∈ ["true", "yes", "1"])

/-- The text without blanks at its ends, and with `Z` written out as an offset. -/
def zoned (raw : String) : List Char :=
  (trimBlank raw).toList.flatMap fun c => if c = 'Z' then "+00:00".toList else [c]

def timestamp (raw : String) : Value :=
  match (Timestamp.read? (zoned raw)).bind Timestamp.toUtc? with
  | some t => .time t
  | none => .badTime raw

/-- The JSON value of the text, or else the text itself. -/
def json (raw : String) : Value :=
  match Json.read raw with
  | .ok v => v
  | .error _ => .str raw

end Raw

def Primitive.valueOf : Primitive → String → Value
  | text, raw => .str raw
  | integer, raw => Raw.integer raw
  | decimal, raw => Raw.decimal raw
  | boolean, raw => Raw.boolean raw
  | timestamp, raw => Raw.timestamp raw
  | json, raw => Raw.json raw

/-- Raw text as a value of a field.  Enums keep it, and a scalar type must be one that can be looked up. -/
def Field.valueOf (f : Field) (raw : String) : Except Fault Value :=
  match f.kind with
  | .scalar (.str type) => .ok ((Primitive.named type).valueOf raw)
  | .scalar type => if type.isHashable then .ok (.str raw) else .error (.unfit .key)
  | _ => .ok (.str raw)

end ListQuery
