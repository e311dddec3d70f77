import ListQuery.Value.Basic
/-!
# Tables of names

A table keeps one entry per name, in the order in which the names were first seen.  Names are values, and two values are
one name when `Value.sameName` says so; the name that was seen first is the one that stays.  Main statement:
`Table.get?_put_self` (what was put under a name is found under it).
-/
namespace ListQuery

/-- Whether two values are one name: they are one key, or both are `nan`, which is a name like any other. -/
def Value.sameName : Value → Value → Bool
  | .float .nan, .float .nan => true
  | v, w => v.sameKey w

abbrev Table (α : Type) := List (Value × α)

namespace Table

variable {α : Type}

def get? (name : Value) (t : Table α) : Option α := Entries.find? (fun n => n.sameName name) t

def put (name : Value) (a : α) (t : Table α) : Table α :=
  Entries.alter (fun n => n.sameName name) name (fun _ => a) t

def names (t : Table α) : List Value := Entries.keys t

/-- The table of a row of entries, of which the last one counts for each name. -/
def ofEntries (entries : List (Value × α)) : Table α := entries.foldl (fun t e => t.put e.1 e.2) []

theorem get?_put_self {name : Value} (a : α) (t : Table α) (h : name.sameName name = true) :
    (t.put name a).get? name = some a := by
  unfold get? put
  refine Entries.find?_alter_self _ ?_ t
  exact h

end Table
end ListQuery
