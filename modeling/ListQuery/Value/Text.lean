import ListQuery.Value.Basic
import ListQuery.Binary64.Text
import ListQuery.Text.Quoted
import ListQuery.Timestamp.Printer
/-!
# Values in messages

`literal` writes a value so that its kind shows: texts are quoted, collections have brackets, and a timestamp is written
as the call that makes it.  `display` is the same, except that a text stands as itself and a timestamp in its written form.
An object says itself how it is written.
-/
namespace ListQuery

def arguments (parts : List String) : String := ", ".intercalate parts

def spanUnits (micros : Int) : List (String × Int) :=
  [("days", micros / microsPerDay), ("seconds", micros % microsPerDay / microsPerSecond),
    ("microseconds", micros % microsPerSecond)]

/-- A span of time as the call that makes it; only the units that are not zero are named. -/
def spanLiteral (micros : Int) : String :=
  let units := ((spanUnits micros).filter (·.2 != 0)).map fun u => u.1 ++ "=" ++ String.ofList (signedDecimal u.2)
  "datetime.timedelta(" ++ (if units.isEmpty then "0" else arguments units) ++ ")"

def Offset.literal (o : Offset) : String :=
  if o = .utc then "datetime.timezone.utc" else "datetime.timezone(" ++ spanLiteral o.micros ++ ")"

/-- A timestamp as the call that makes it; seconds and microseconds are named only where they are needed. -/
def Timestamp.literal (t : Timestamp) : String :=
  let clock :=
    if t.microsecond != 0 then [t.hour, t.minute, t.second, t.microsecond]
    else if t.second != 0 then [t.hour, t.minute, t.second]
    else [t.hour, t.minute]
  let fields := ([t.date.year, t.date.month, t.date.day] ++ clock).map fun n => String.ofList (decimal n)
  let zone := match t.offset with | some o => ["tzinfo=" ++ o.literal] | none => []
  "datetime.datetime(" ++ arguments (fields ++ zone) ++ ")"

namespace Value

def intText (n : Int) : String := String.ofList (signedDecimal n)

def boolText (b : Bool) : String := if b then "True" else "False"

def badTimeText : String := "Invalid Date"

mutual

def literal : Value → String
  | null => "None"
  | bool b => boolText b
  | int n => intText n
  | float x => x.text
  | str s => quotedText s
  | bytes octets => quotedBytes octets
  | time t => t.literal
  | badTime raw => "InvalidDateTime(raw=" ++ quotedText raw ++ ")"
  | span micros => spanLiteral micros
  | list items => "[" ++ arguments (literals items) ++ "]"
  | tuple [v] => "(" ++ literal v ++ ",)"
  | tuple items => "(" ++ arguments (literals items) ++ ")"
  | set [] => "set()"
  | set items => "\x7b" ++ arguments (literals items) ++ "\x7d"
  | map entries => "\x7b" ++ arguments (entryLiterals entries) ++ "\x7d"
  | record handle _ => handle.literal

def literals : List Value → List String
  | [] => []
  | v :: rest => literal v :: literals rest

def entryLiterals : List (String × Value) → List String
  | [] => []
  | (k, v) :: rest => (quotedText k ++ ": " ++ literal v) :: entryLiterals rest

end

def display : Value → String
  | str s => s
  | time t => t.textWith ' '
  | badTime _ => badTimeText
  | record handle _ => handle.display
  | v => literal v

end Value
end ListQuery
