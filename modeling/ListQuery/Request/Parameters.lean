import ListQuery.Json.Reader
import ListQuery.Request.Integer
import ListQuery.Request.Settings
/-!
# Request parameters

The parameters of a list request: the page window, ordering, projection, search, filter and grouping, and which parts the
answer should have.  Each parameter is checked on its own and all problems are reported; how the parameters go together
is checked once each of them is valid.
-/
namespace ListQuery

inductive Direction where
  | asc
  | desc
  deriving DecidableEq

def Direction.text : Direction → String
  | asc => "asc"
  | desc => "desc"

structure Parameters where
  page : Int
  limit : Int
  order : Direction
  fields : Option String
  sort : Option String
  query : String
  document : Bool
  pagination : Bool
  count : Bool
  filter : Option String
  groupBy : Option String
  deriving DecidableEq

namespace Parameters

def skip (p : Parameters) : Int := (p.page - 1) * p.limit

def textOrNull : Option String → Value
  | some s => .str s
  | none => .null

def entries (p : Parameters) : List (String × Value) :=
  [("page", .int p.page), ("limit", .int p.limit), ("order", .str p.order.text), ("fields", textOrNull p.fields),
    ("sort", textOrNull p.sort), ("query", .str p.query), ("document", .bool p.document),
    ("pagination", .bool p.pagination), ("count", .bool p.count), ("filter", textOrNull p.filter),
    ("group_by", textOrNull p.groupBy)]

/-! ## Checks of one value -/

def checkPositive (v : Value) : Except Rejection Int := do
  let n ← v.requestInteger
  if n < 1 then .error .belowOne else return n

/-- Whether an integer is above a bound; a bound that is no number bounds nothing and is unfit. -/
def exceeds (n : Int) (bound : Value) : Except Fault Bool :=
  match bound with
  | .int m => .ok (m < n)
  | .bool b => .ok ((if b then 1 else 0) < n)
  | .float x => .ok (x.compareInt? n == some .lt)
  | _ => .error (.unfit .number)

/-- Checks a limit, against the bound if there is one. -/
def checkLimit (maxLimit v : Value) : Except Fault (Except Rejection Int) :=
  match checkPositive v, maxLimit with
  | .error r, _ => .ok (.error r)
  | .ok n, .null => .ok (.ok n)
  | .ok n, bound => do
    return if ← exceeds n bound then .error (.refused ("must not exceed " ++ bound.display)) else .ok n

def checkDirection : Value → Except Rejection Direction
  | .str "asc" => .ok .asc
  | .str "desc" => .ok .desc
  | _ => .error .notADirection

def checkText : Value → Except Rejection String
  | .str s => .ok s
  | .bytes octets =>
    match decodeBytes? octets with
    | some s => .ok s
    | none => .error .undecodableText
  | _ => .error .notText

def checkOptionalText : Value → Except Rejection (Option String)
  | .null => .ok none
  | v => (checkText v).map some

def checkFlag : Value → Except Rejection Bool
  | .bool b => .ok b
  | .str "true" => .ok true
  | .str "false" => .ok false
  | _ => .error (.refused "must be 'true' or 'false'")

/-- Checks that a sort which opens an object is JSON.  Only nesting that is too deep is no matter of the request. -/
def checkSort (v : Value) : Except Fault (Except Rejection (Option String)) :=
  match checkOptionalText v with
  | .ok (some text) =>
    if text.toList.head? = some '{' then
      match Json.read text with
      | .ok _ => .ok (.ok (some text))
      | .error (.malformed ..) => .ok (.error (.refused "must be a field name or a JSON object"))
      | .error (.tooManyDigits count) => .ok (.error (.refused (Json.Fault.tooManyDigits count).message))
      | .error .tooDeep => .error (.json .tooDeep)
    else .ok (.ok (some text))
  | checked => .ok checked

def checkGroupBy (v : Value) : Except Rejection (Option String) := do
  match ← checkOptionalText v with
  | none => return none
  | some path =>
    let trimmed := trimBlank path
    if trimmed = "" then .error (.refused "must not be empty") else return some trimmed

/-! ## Checks of a request -/

/-- What is wrong with how valid parameters go together. -/
def combination? (p : Parameters) : Option String :=
  if !(p.document || p.pagination || p.count) then
    some "At least one of document, pagination, or count must be true"
  else if p.pagination && !p.document then some "Pagination can only be true when document is also true"
  else if p.groupBy.isSome && !p.document then some "groupBy can only be used when document is true"
  else none

def checked {α : Type} (given : List (String × Value)) (name : String) (absent : α)
    (check : Value → Except Rejection α) : Checked α :=
  match Value.lookup? name given with
  | none => .valid absent
  | some v => .ofExcept name (check v)

def checkedM {α : Type} (given : List (String × Value)) (name : String) (absent : α)
    (check : Value → Except Fault (Except Rejection α)) : Except Fault (Checked α) :=
  match Value.lookup? name given with
  | none => .ok (.valid absent)
  | some v => (check v).map (Checked.ofExcept name)

/-- The name under which a path to group by is given; the short one wins. -/
def groupByName (given : List (String × Value)) : String :=
  if (Value.lookup? "groupBy" given).isSome then "groupBy" else "group_by"

def check (maxLimit : Value) (given : List (String × Value)) : Except Fault (Checked Parameters) := do
  let limit ← checkedM given "limit" 10 (checkLimit maxLimit)
  let sort ← checkedM given "sort" none checkSort
  let each : Checked Parameters :=
    Parameters.mk <$> checked given "page" 1 checkPositive <*> limit <*> checked given "order" .desc checkDirection <*>
      checked given "fields" none checkOptionalText <*> sort <*> checked given "query" "" checkText <*>
      checked given "document" false checkFlag <*> checked given "pagination" false checkFlag <*>
      checked given "count" false checkFlag <*> checked given "filter" none checkOptionalText <*>
      checked given (groupByName given) none checkGroupBy
  match each with
  | .valid p =>
    match combination? p with
    | none => return .valid p
    | some reason => return .invalid [⟨"", .refused reason⟩]
  | invalid => return invalid

def ofValues (given : List (String × Value)) : Except Fault Parameters := do
  (← check .null given).toExcept .invalid

def messagesOf (problems : List Problem) : InputMessages :=
  problems.map fun p => (if p.parameter = "" then wholeInput else p.parameter, [p.rejection.message])

/-- The values of a request over the defaults of the settings; null counts as not given. -/
def withDefaults (settings : Settings) (given : List (String × Value)) : List (String × Value) :=
  (given.filter fun e => match e.2 with | .null => false | _ => true).foldl (fun m e => Value.insert e.1 e.2 m)
    [("limit", settings.defaultLimit), ("order", settings.defaultOrder)]

def ofRequest (settings : Settings) (given : List (String × Value)) : Except Fault Parameters := do
  (← check settings.maxLimit (withDefaults settings given)).toExcept fun problems =>
    .query (.parameters (messagesOf problems))

end Parameters
end ListQuery
