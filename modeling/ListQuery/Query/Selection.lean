import ListQuery.Text.Blank
import ListQuery.Text.Split
import ListQuery.Value.Basic
/-!
# Selections

A field list names the fields that an answer should have, with dots for nested ones.  Paths with a common beginning share
the nodes of one tree.  A node is either selected as a whole or has nested selections, which win over the whole field.
-/
namespace ListQuery

inductive Selection where
  | whole
  | nested (tree : List (String × Selection))

/-- The selected fields of a level, in the order in which they were first named. -/
abbrev SelectionTree := List (String × Selection)

/-! ## Field lists -/

/-- The dotted paths of a field list, with blanks around entries and segments taken off and blank entries left out. -/
def fieldPaths (fields : String) : List (List String) :=
  if fields = "" then []
  else
    (splitText ',' fields).filterMap fun entry =>
      let trimmed := trimBlank entry
      if trimmed = "" then none else some ((splitText '.' trimmed).map trimBlank)

/-! ## Trees -/

namespace Selection

def tree : Selection → SelectionTree
  | whole => []
  | nested tree => tree

end Selection

namespace SelectionTree

def alter (name : String) (f : Option Selection → Selection) (tree : SelectionTree) : SelectionTree :=
  Entries.alter (· == name) name f tree

/-- Adds a path.  Its last field is selected as a whole unless it is there already. -/
def add : (path : List String) → SelectionTree → SelectionTree
  | [], tree => tree
  | [leaf], tree => alter leaf (fun s => s.getD .whole) tree
  | name :: rest, tree => alter name (fun s => .nested (add rest (s.elim [] Selection.tree))) tree

/-- The tree of these paths; `id` is always selected. -/
def ofPaths (paths : List (List String)) : SelectionTree :=
  paths.foldl (fun tree path => add path tree) [("id", .whole)]

def ofFields? (fields : String) : Option SelectionTree :=
  match fieldPaths fields with
  | [] => none
  | paths => some (ofPaths paths)

mutual

/-- A selection as a value: true for a whole field, and a map with the one key `select` for nested selections. -/
def selectionValue : Selection → Value
  | .whole => .bool true
  | .nested tree => .map [("select", .map (entries tree))]

def entries : List (String × Selection) → List (String × Value)
  | [] => []
  | (name, s) :: rest => (name, selectionValue s) :: entries rest

end

def toValue (tree : SelectionTree) : Value := .map (entries tree)

mutual

def selectionLeaves : Selection → List (List String)
  | .whole => [[]]
  | .nested tree => leaves tree

/-- The paths to the fields that are selected as a whole, depth first. -/
def leaves : List (String × Selection) → List (List String)
  | [] => []
  | (name, s) :: rest => (selectionLeaves s).map (name :: ·) ++ leaves rest

end

end SelectionTree

def projection (fields : Option String) : Option Value := (fields.bind SelectionTree.ofFields?).map SelectionTree.toValue

end ListQuery
