import ListQuery.Fault
import ListQuery.Json.Reader
import ListQuery.Query.Selection
/-!
# Query descriptors

A descriptor is what the executor of a query is given: the condition, the page window, the ordering and the projection.
-/
namespace ListQuery

/-- The ordering for a sort in a direction.  Without a sort it is by `id`; a text is the name of a field, or JSON if it
opens an object; any other value is an ordering already. -/
def ordering (direction : String) (sort : Value) : Except Fault Value :=
  if !sort.isTruthy then .ok (.map [("id", .str direction)])
  else
    match sort with
    | .str text =>
      if text.toList.head? = some '{' then (Json.read text).mapError .json
      else .ok (.map [(text, .str direction)])
    | v => .ok v

structure Descriptor where
  condition : Value
  skip : Value
  take : Value
  orderBy : Value
  select : Value

namespace Descriptor

def everything : Descriptor := ⟨.null, .int 0, .null, .map [], .null⟩

/-- The names under which the executor takes the parts; a projection is left out if there is none. -/
def toValue (d : Descriptor) : Value :=
  .map ([("where", d.condition), ("skip", d.skip), ("take", d.take), ("orderBy", d.orderBy)] ++
    (match d.select with | .null => [] | select => [("select", select)]))

def findMany (condition skip limit : Value) (direction : String) (sort : Value) (fields : Option String) :
    Except Fault Descriptor := do
  let orderBy ← ordering direction sort
  let select := (projection fields).getD .null
  return ⟨condition, skip, limit, orderBy, select⟩

end Descriptor
end ListQuery
