import ListQuery.Binary64.Rounding
import ListQuery.Fault
import ListQuery.Request.Integer
/-!
# Page windows

A page window says how a page lies among all rows.  The count of pages is the ceiling of a floating point quotient, so it
is exact only as far as that quotient is.
-/
namespace ListQuery

structure PageWindow where
  total : Int
  page : Int
  limit : Int
  totalPages : Int
  hasNext : Bool
  hasPrevious : Bool
  deriving DecidableEq

namespace PageWindow

/-- A rounded number, unless it was too large for any but an infinity. -/
def inRange : Binary64 → Except Fault Binary64
  | .infinite _ => .error .tooLarge
  | x => .ok x

/-- An operand of a quotient, as a floating point number; an integer may be too large for one. -/
def operand (v : Value) : Except Fault Binary64 :=
  match v, v.asInt? with
  | .float x, _ => .ok x
  | _, none => .error (.unfit .number)
  | _, some n => inRange (.ofInt n)

/-- The quotient of two values.  That of two integers is rounded once, from the exact quotient. -/
def quotient (a b : Value) : Except Fault Binary64 :=
  match a.asInt?, b.asInt? with
  | some m, some n => inRange (.ofRatio (decide (m < 0) != decide (n < 0)) m.natAbs n.natAbs)
  | _, _ => do return Binary64.divide (← operand a) (← operand b)

def ceiling (x : Binary64) : Except Fault Int :=
  match x with
  | .nan => .error .notANumber
  | .infinite _ => .error .tooLarge
  | x => .ok (x.ceiling?.getD 0)

/-- The count of pages; there are none without a limit. -/
def pageCount (total limit : Value) : Except Fault Int := do
  if limit.isTruthy then ceiling (← quotient total limit) else return 0

def compareTo (v : Value) (n : Int) : Except Fault (Option Ordering) :=
  match v, v.asInt? with
  | .float x, _ => .ok (x.compareInt? n)
  | _, some m => .ok (some (compare m n))
  | _, none => .error (.unfit .number)

def make (total page limit : Value) : Except Fault PageWindow := do
  let totalPages ← pageCount total limit
  let hasNext := (← compareTo page totalPages) == some .lt
  let hasPrevious := (← compareTo page 1) == some .gt
  let whole (name : String) (v : Value) : Checked Int := .ofExcept name v.requestInteger
  let numbers : Checked (Int × Int × Int) :=
    (fun t p l => (t, p, l)) <$> whole "total" total <*> whole "page" page <*> whole "limit" limit
  let (total, page, limit) ← numbers.toExcept .invalid
  return { total, page, limit, totalPages, hasNext, hasPrevious }

end PageWindow
end ListQuery
