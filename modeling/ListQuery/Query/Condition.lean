import ListQuery.Schema.Field
/-!
# Conditions

A condition says which rows are meant.  The leaf compares one field; around it stands one layer per field that the path
to it leads through, and alternatives are joined by `any`.  `document` writes a condition as the nested maps that the
executor of a query understands.
-/
namespace ListQuery

/-- How a condition reaches into an object field: a list is searched for some item, and an embedded composite is matched
as a structure, whereas a relation is joined. -/
structure Layer where
  field : String
  toMany : Bool
  embedded : Bool
  deriving DecidableEq

/-- The layer of an object field.  A field without the name of a relation is embedded. -/
def Field.layer (f : Field) : Layer :=
  { field := f.label
    toMany := f.isList
    embedded := !f.relation?.any Value.isTruthy }

inductive Condition where
  | equals (field : String) (value : Value)
  | has (field : String) (value : Value)
  | contains (field term : String) (mode : Option Value)
  | within (layer : Layer) (inner : Condition)
  | any (alternatives : List Condition)
  | all (parts : List Condition)
  | given (document : Value)

def Value.only (key : String) (value : Value) : Value := .map [(key, value)]

def Layer.around (l : Layer) (inner : Value) : Value :=
  let matched := if l.embedded then Value.only "is" inner else inner
  Value.only l.field (if l.toMany then Value.only "some" matched else matched)

namespace Condition

mutual

def document : Condition → Value
  | equals field value => .only field value
  | has field value => .only field (.only "has" value)
  | contains field term mode =>
    .only field (.map (("contains", .str term) :: (match mode with | some m => [("mode", m)] | none => [])))
  | within layer inner => layer.around inner.document
  | any alternatives => .only "OR" (.list (documents alternatives))
  | all parts => .only "AND" (.list (documents parts))
  | given document => document

def documents : List Condition → List Value
  | [] => []
  | c :: rest => c.document :: documents rest

end

theorem documents_eq : ∀ conditions : List Condition, documents conditions = conditions.map document
  | [] => rfl
  | c :: rest => congrArg (c.document :: ·) (documents_eq rest)

/-- A condition inside layers, of which the first is the outermost. -/
def nest (layers : List Layer) (c : Condition) : Condition := layers.foldr within c

/-- The leaf that compares a field with a value: a list has it among its items. -/
def compare (f : Field) (value : Value) : Condition :=
  if f.isList then has f.label value else equals f.label value

end Condition

/-- A search mode, unless it counts as not given. -/
def modeOf (mode : Value) : Option Value := if mode.isTruthy then some mode else none

end ListQuery
