import ListQuery.Value.Text
/-!
# Fields

A field has a name, a kind and a list flag.  Scalars and enums are compared directly; an object field leads on to another
schema, through a relation if it has the name of one and as an embedded composite otherwise.  Names and types are those of
the schema document, which may hold other values than texts.
-/
namespace ListQuery

inductive Kind where
  | scalar (type : Value)
  | enum (name : Value)
  | object (target : Value) (relation : Option Value)

structure Field where
  name : Value
  kind : Kind
  isList : Bool

namespace Field

/-- The name as it stands in conditions. -/
def label (f : Field) : String := f.name.display

def isNamed (name : String) (f : Field) : Bool := f.name.sameKey (.str name)

/-- The scalar type, the name of the enum, or the name of the schema that the field leads to. -/
def type (f : Field) : Value :=
  match f.kind with
  | .scalar type => type
  | .enum name => name
  | .object target _ => target

def relation? (f : Field) : Option Value :=
  match f.kind with
  | .object _ relation => relation
  | _ => none

def isObject (f : Field) : Bool :=
  match f.kind with
  | .object .. => true
  | _ => false

def isComparable (f : Field) : Bool := !f.isObject

/-- Enums, and scalar texts that are no lists, support substring search. -/
def isSearchable (f : Field) : Bool :=
  match f.kind with
  | .enum _ => true
  | .scalar type => type.sameKey (.str "String") && !f.isList
  | .object .. => false

end Field

end ListQuery
