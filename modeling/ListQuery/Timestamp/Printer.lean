import ListQuery.Timestamp.Basic
import ListQuery.Text.DecimalDigit
/-!
# The written form of a timestamp

Date, a separator, the time to the second, then microseconds and the offset's seconds only where they are not zero.
-/
namespace ListQuery

def twoDigits (n : Nat) : List Char := zeroFilled 2 (decimal n)

def fractionText (micros : Nat) : List Char := if micros = 0 then [] else '.' :: zeroFilled 6 (decimal micros)

def Date.text (d : Date) : List Char :=
  zeroFilled 4 (decimal d.year) ++ '-' :: twoDigits d.month ++ '-' :: twoDigits d.day

/-- Sign, hours and minutes, and the smaller units if there are any. -/
def Offset.text (o : Offset) : List Char :=
  let size := o.micros.natAbs
  let seconds := size / microsPerSecond % 60
  let micros := size % microsPerSecond
  (if o.micros < 0 then '-' else '+') :: twoDigits (size / microsPerHour) ++ ':' ::
    twoDigits (size / microsPerMinute % 60) ++
    (if seconds = 0 ∧ micros = 0 then [] else ':' :: twoDigits seconds ++ fractionText micros)

namespace Timestamp

def clockText (t : Timestamp) : List Char :=
  twoDigits t.hour ++ ':' :: twoDigits t.minute ++ ':' :: twoDigits t.second ++ fractionText t.microsecond

def textWith (separator : Char) (t : Timestamp) : String :=
  String.ofList (t.date.text ++ separator :: t.clockText ++ (match t.offset with | some o => o.text | none => []))

def isoText (t : Timestamp) : String := t.textWith 'T'

end Timestamp
end ListQuery
