import ListQuery.Query.Descriptor
import ListQuery.Query.FilterPairs
import ListQuery.Rows.Buckets
import ListQuery.Request.Parameters
import ListQuery.Query.SearchPaths
/-!
# List endpoints

An endpoint knows a registry and settings.  It compiles the parameters of a request to a query descriptor and groups the
rows that the query gives.
-/
namespace ListQuery

structure Endpoint where
  registry : Registry
  settings : Settings

inductive Rows where
  | plain (rows : List Value)
  | grouped (buckets : Buckets)

namespace Endpoint

def clause (key : String) (conditions : List Condition) : List (String × Value) :=
  if conditions.isEmpty then [] else [(key, .list (Condition.documents conditions))]

/-- The where clause of a search and a filter: the search conditions are alternatives, the filter conditions hold
together.  There is a search only if a term and fields are given. -/
def condition (e : Endpoint) (model query : String) (searchFields : List String) (filter : String) :
    Except Fault Value := do
  let found ←
    if query = "" || searchFields.isEmpty then pure []
    else (e.registry.searchConditions (modeOf e.settings.searchMode) model (some query) searchFields).1
  let kept ← if filter = "" then pure [] else (e.registry.filterConditions (.str model) filter).map Prod.fst
  return .map (clause "OR" found ++ clause "AND" kept)

def compile (e : Endpoint) (model : String) (p : Parameters) (searchFields : List String) : Except Fault Descriptor := do
  let condition ← e.condition model p.query searchFields (p.filter.getD "")
  Descriptor.findMany condition (.int p.skip) (.int p.limit) p.order.text (Parameters.textOrNull p.sort) p.fields

/-- The rows of an answer to a request; an empty path to group by is none. -/
def group (e : Endpoint) (rows : List Value) (p : Parameters) : Except Fault Rows :=
  let path := p.groupBy.getD ""
  if path = "" then .ok (.plain rows)
  else (Buckets.ofRows path e.settings.unassignedKey rows).map .grouped

end Endpoint
end ListQuery
