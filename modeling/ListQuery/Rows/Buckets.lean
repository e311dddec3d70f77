import ListQuery.Fault
import ListQuery.Json.Canonical
import ListQuery.Text.Split
/-!
# Grouping

Rows are put into buckets by the value that a dotted path leads to.  A value that is missing counts as unassigned, truth
values have keys of their own, and a value that cannot be a key is represented by its canonical JSON text.
-/
namespace ListQuery

namespace Value

def timeFields (t : Timestamp) : List (String × Value) :=
  [("year", .int t.date.year), ("month", .int t.date.month), ("day", .int t.date.day), ("hour", .int t.hour),
    ("minute", .int t.minute), ("second", .int t.second), ("microsecond", .int t.microsecond), ("fold", .int 0),
    ("min", .time .first), ("max", .time .last), ("resolution", .span 1)]

/-- The shortest span of time and the longest: just under a billion days either way. -/
def leastSpan : Value := .span (-999999999 * microsPerDay)
def greatestSpan : Value := .span (1000000000 * microsPerDay - 1)

def spanFields (micros : Int) : List (String × Value) :=
  (spanUnits micros).map (fun u => (u.1, .int u.2)) ++
    [("min", leastSpan), ("max", greatestSpan), ("resolution", .span 1)]

/-- The part of a value under a name, if the value has parts and one of that name. -/
def part? (name : String) : Value → Option Value
  | map entries => lookup? name entries
  | record _ attributes => lookup? name attributes
  | time t => lookup? name (timeFields t)
  | badTime raw => lookup? name [("raw", .str raw)]
  | span micros => lookup? name (spanFields micros)
  | _ => none

def follow (v : Value) : (names : List String) → Value
  | [] => v
  | name :: rest =>
    match v.part? name with
    | none => null
    | some part => part.follow rest

def atPath (v : Value) (path : String) : Value := v.follow (splitText '.' path)

def bucketKey (v unassigned : Value) : Value :=
  match v with
  | null => unassigned
  | bool b => str (if b then "true" else "false")
  | v => if v.isHashable then v else str (Json.canonical v)

end Value

abbrev Buckets := List (Value × List Value)

/-! ## Keys as objects

The keys of a grouping are objects.  The unassigned key is one object for all rows, whereas any other key is an object of
the row that it is read from.  This matters for a key that is not equal to itself, such as `nan`. -/

/-- The key of a bucket, with the place of the row that it is read from; the unassigned key is read from no row. -/
structure BucketKey where
  source : Option Nat
  value : Value

namespace BucketKey

def ofRow (path : String) (unassigned row : Value) (place : Nat) : BucketKey :=
  let v := row.atPath path
  { source := match v with | .null => none | _ => some place
    value := v.bucketKey unassigned }

/-- Two keys are one if they are one object, or equal. -/
def same (k l : BucketKey) : Bool := k.source == l.source || k.value.sameKey l.value

end BucketKey

namespace Buckets

/-- The rows, each with its key.  Only an unassigned key can fail to be a key. -/
def keyed (path : String) (unassigned : Value) (rows : List Value) : Except Fault (List (BucketKey × Value)) :=
  rows.zipIdx.mapM fun (row, place) =>
    let key := BucketKey.ofRow path unassigned row place
    if key.value.isHashable then .ok (key, row) else .error (.unfit .key)

def ofRows (path : String) (unassigned : Value) (rows : List Value) : Except Fault Buckets := do
  let buckets := Entries.collect BucketKey.same (← keyed path unassigned rows)
  return buckets.map fun (key, rows) => (key.value, rows)

end Buckets
end ListQuery
