import ListQuery.Fault
import ListQuery.Schema.Field
import ListQuery.Schema.Table
/-!
# Models and the registry

The registry is a catalogue of models, embedded composites and enums.  Names are looked up among the models first and then
among the composites, so that a model hides a composite of its name.  Where a name is given more than once, the last
model, composite, enum or field of that name counts, in the place of the first.
-/
namespace ListQuery

def Value.asKey (v : Value) : Except Fault Unit := if v.isHashable then .ok () else .error (.unfit .key)

structure Model where
  name : Value
  fields : List Field
  isComposite : Bool

namespace Model

/-- A model whose field names can be looked up. -/
def make (name : Value) (fields : List Field) (isComposite : Bool) : Except Fault Model := do
  fields.forM fun f => f.name.asKey
  return ⟨name, fields, isComposite⟩

/-- The last field of a name. -/
def field? (m : Model) (name : String) : Option Field := m.fields.reverse.find? (Field.isNamed name)

def fieldNames (m : Model) : List Value := m.fields.map Field.name

def asComposite (m : Model) : Model := { m with isComposite := true }

end Model

structure Registry where
  models : Table Model
  composites : Table Model
  enums : Table (List Value)

namespace Registry

def tableOf (models : List Model) : Except Fault (Table Model) := do
  models.forM fun m => m.name.asKey
  return .ofEntries (models.map fun m => (m.name, m))

def make (models composites : List Model) (enums : Table (List Value)) : Except Fault Registry := do
  let models ← tableOf models
  let composites ← tableOf (composites.map Model.asComposite)
  return ⟨models, composites, enums⟩

/-! ## Lookup -/

/-- The model of a name, or else the composite of that name. -/
def find? (r : Registry) (name : Value) : Option Model := (r.models.get? name).or (r.composites.get? name)

def lookup (r : Registry) (name : Value) : Except Fault (Option Model) := do
  name.asKey
  return r.find? name

def field? (r : Registry) (schema : Value) (name : String) : Except Fault (Option Field) := do
  return (← r.lookup schema).bind fun m => m.field? name

/-- Models are stored on their own, composites are not. -/
def isModel (r : Registry) (name : Value) : Bool := (r.models.get? name).isSome

def modelNames (r : Registry) : List Value := r.models.names

def compositeNames (r : Registry) : List Value := r.composites.names

/-- Every name once: the models', then those of the composites that no model hides. -/
def names (r : Registry) : List Value := r.modelNames ++ r.compositeNames.filter fun n => !r.isModel n

def size (r : Registry) : Nat := ((r.modelNames ++ r.compositeNames).eraseDupsBy Value.sameName).length

def enumValues? (r : Registry) (name : String) : Option (List Value) := r.enums.get? (.str name)

def get (r : Registry) (name : String) : Except Fault Model :=
  match r.find? (.str name) with
  | some m => .ok m
  | none => .error (.missingKey name)

def get? (r : Registry) (name : String) : Option Model := (r.get name).toOption

def contains (r : Registry) (name : String) : Bool := (r.get name).isOk

def summary (r : Registry) : String :=
  "SchemaRegistry(models=" ++ (Value.list r.modelNames).literal ++
    ", types=" ++ (Value.list r.compositeNames).literal ++ ")"

/-! ## Paths

A path leads from a schema through object fields to its last field. -/

/-- Follows the rest of a path from a schema; the whole path has `count` names, and `index` of them are passed. -/
def follow (r : Registry) (count : Nat) : (index : Nat) → (schema : Value) → (rest : List String) →
    Except Fault (Option Field)
  | _, _, [] => .ok none
  | index, schema, name :: rest => do
    match ← r.field? schema name with
    | none => return none
    | some f =>
      if index = count - 1 then return some f
      else if f.isObject then r.follow count (index + 1) f.type rest
      else return none

def fieldAt (r : Registry) (schema : Value) (path : List String) : Except Fault (Option Field) :=
  r.follow path.length 0 schema path

def isSearchable (r : Registry) (schema : Value) (path : List String) : Except Fault Bool := do
  return (← r.fieldAt schema path).any Field.isSearchable

end Registry
end ListQuery
