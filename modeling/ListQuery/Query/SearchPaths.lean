import ListQuery.Query.Condition
import ListQuery.Record
import ListQuery.Schema.Registry
import ListQuery.Text.Split
/-!
# Search

A search looks for a term in fields that the caller names by their paths.  Unlike a filter it is strict: all paths that do
not end on a searchable field are reported in one error.
-/
namespace ListQuery

namespace Registry

def searchCondition (r : Registry) (mode : Option Value) (schema : Value) : (path : List String) → (term : String) →
    Except Fault (Option Condition)
  | [], _ => .ok none
  | [name], term => do
    match ← r.field? schema name with
    | none => return none
    | some f => if f.isSearchable then return some (.contains f.label term mode) else return none
  | name :: rest, term => do
    match ← r.field? schema name with
    | none => return none
    | some f =>
      if f.isObject then return (← r.searchCondition mode f.type rest term).map (.within f.layer)
      else return none

/-! ## Validation -/

def invalidPaths (r : Registry) (model : String) (paths : List String) : Except Fault (List String) := do
  let checked ← paths.mapM fun path => do return (path, ← r.isSearchable (.str model) (splitText '.' path))
  return checked.filterMap fun (path, searchable) => if searchable then none else some path

def searchableNames (r : Registry) (model : String) : List Value :=
  match r.find? (.str model) with
  | some m => (m.fields.filter Field.isSearchable).map Field.name
  | none => []

/-- Names as texts; another value cannot be compared with them. -/
def asTexts (names : List Value) : Except Fault (List String) :=
  names.mapM fun name => match name with | .str s => .ok s | _ => .error (.unfit .text)

def rejectedPaths (model : String) (invalid : List String) : Record :=
  ⟨.warning, .search, "Rejected search fields for " ++ model ++ ": " ++ ", ".intercalate invalid⟩

def validateSearch (r : Registry) (model : String) (paths : List String) : Except Fault Unit × List Record :=
  match r.invalidPaths model paths with
  | .error e => (.error e, [])
  | .ok [] => (.ok (), [])
  | .ok invalid =>
    let refusal : Except Fault Unit := do
      .error (.query (.searchFields model invalid (← asTexts (r.searchableNames model))))
    (refusal, [rejectedPaths model invalid])

/-! ## Conditions -/

/-- The conditions of a search, one per path, and the records made on the way.  The model must be one that is stored on
its own, and there must be a path; both are checked even without a term, as the paths are.  An empty term is none. -/
def searchConditions (r : Registry) (mode : Option Value) (model : String) (term : Option String) (paths : List String) :
    Except Fault (List Condition) × List Record :=
  if !r.isModel (.str model) then
    (do .error (.query (.unknownModel model (← asTexts r.modelNames))), [])
  else if paths.isEmpty then (.error (.query (.nothingToSearch model [])), [])
  else
    let (valid, records) := r.validateSearch model paths
    let conditions : Except Fault (List Condition) := do
      valid
      let term := term.getD ""
      if term = "" then return []
      let found := (← paths.mapM fun path => r.searchCondition mode (.str model) (splitText '.' path) term).filterMap id
      if found.isEmpty then .error (.query (.nothingToSearch model paths)) else return found
    (conditions, records)

end Registry
end ListQuery
