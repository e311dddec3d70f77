import ListQuery.Query.Condition
import ListQuery.Record
import ListQuery.Schema.Raw
import ListQuery.Schema.Registry
import ListQuery.Text.Split
/-!
# Filters

A filter text lists pairs `key:value` with commas between.  The values of one key are alternatives, and the keys are
conditions that hold together.  A filter is best effort: an item without a colon and a pair whose key leads to no scalar or
enum are dropped, each with a record.
-/
namespace ListQuery

/-! ## Pairs -/

inductive FilterItem where
  | pair (key value : String)
  | bare (text : String)
  deriving DecidableEq

/-- Reads an item.  What stands behind a second colon is ignored. -/
def FilterItem.ofText (text : String) : FilterItem :=
  match splitText ':' text with
  | key :: value :: _ => .pair key value
  | _ => .bare text

def filterItems (filter : String) : List FilterItem :=
  if filter = "" then [] else (splitText ',' filter).map FilterItem.ofText

abbrev FilterPairs := List (String × List String)

namespace FilterPairs

def add (key value : String) (pairs : FilterPairs) : FilterPairs :=
  Entries.alter (· == key) key (fun values => values.getD [] ++ [value]) pairs

def ofItems (items : List FilterItem) : FilterPairs :=
  items.foldl (fun pairs item => match item with | .pair key value => pairs.add key value | .bare _ => pairs) []

def ofText (filter : String) : FilterPairs := ofItems (filterItems filter)

end FilterPairs

/-! ## Conditions -/

def Registry.filterCondition (r : Registry) (schema : Value) : (path : List String) → (raw : String) →
    Except Fault (Option Condition)
  | [], _ => .ok none
  | [name], raw => do
    match ← r.field? schema name with
    | none => return none
    | some f => if f.isComparable then return some (.compare f (← f.valueOf raw)) else return none
  | name :: rest, raw => do
    match ← r.field? schema name with
    | none => return none
    | some f =>
      if f.isObject then return (← r.filterCondition f.type rest raw).map (.within f.layer)
      else return none

def skippedItem (text : String) : Record :=
  ⟨.debug, .filters, "Skipping filter item without a value: " ++ quotedText text⟩

def droppedPair (key value : String) : Record :=
  ⟨.debug, .filters, "Dropping unresolved filter " ++ key ++ ":" ++ value⟩

def skippedItems (items : List FilterItem) : List Record :=
  items.filterMap fun item => match item with | .bare text => some (skippedItem text) | .pair .. => none

def joinAlternatives (valueCount : Nat) (conditions : List Condition) : Option Condition :=
  if valueCount = 1 then conditions.head? else if conditions.isEmpty then none else some (.any conditions)

def Registry.keyCondition (r : Registry) (model : Value) (key : String) (values : List String) :
    Except Fault (Option Condition × List Record) := do
  let conditions ← values.mapM fun value => r.filterCondition model (splitText '.' key) value
  let dropped := (values.zip conditions).filterMap fun (value, c) => if c.isNone then some (droppedPair key value) else none
  return (joinAlternatives values.length (conditions.filterMap id), dropped)

/-- The conditions of a filter text, one per key, and the records of what was dropped. -/
def Registry.filterConditions (r : Registry) (model : Value) (filter : String) :
    Except Fault (List Condition × List Record) := do
  let items := filterItems filter
  let results ← (FilterPairs.ofItems items).mapM fun (key, values) => r.keyCondition model key values
  return (results.filterMap Prod.fst, skippedItems items ++ results.flatMap Prod.snd)

end ListQuery
