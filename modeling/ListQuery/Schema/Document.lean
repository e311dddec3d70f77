import ListQuery.Json.Reader
import ListQuery.Schema.Registry
/-!
# Schema documents

A document lists models, types (the composites) and enums, either at its top or under `datamodel`.  It is read in that
order, entry by entry, and the first fault ends the reading.
-/
namespace ListQuery

/-! ## Parts of a document -/

def Value.entries : Value → Except Fault (List (String × Value))
  | map entries => .ok entries
  | _ => .error (.unfit .object)

/-- What a value holds one by one: the items of a list, the characters of a text, the keys of an object. -/
def Value.contents : Value → Except Fault (List Value)
  | list items | tuple items | set items => .ok items
  | str s => .ok (s.toList.map fun c => .str (String.singleton c))
  | map entries => .ok (entries.map fun e => .str e.1)
  | _ => .error (.unfit .collection)

def entryOrNull (key : String) (entries : List (String × Value)) : Value := (Value.lookup? key entries).getD .null

def contentsOf (key : String) (entries : List (String × Value)) : Except Fault (List Value) :=
  match Value.lookup? key entries with
  | none => .ok []
  | some v => v.contents

def definitionError {α : Type} (fault : DefinitionFault) : Except Fault α := .error (.query (.definition fault))

def listUnder (key : String) (entries : List (String × Value)) : Except Fault (List Value) :=
  match Value.lookup? key entries with
  | none => .ok []
  | some (.list items) => .ok items
  | some _ => definitionError (.notAList key)

/-! ## Fields and models -/

/-- The kind that a tag stands for, in letters of either case.  An empty relation name is none. -/
def Kind.ofTag? (tag type : Value) (relation : Value) : Option Kind :=
  match tag with
  | .str tag =>
    match tag.toLower with
    | "scalar" => some (.scalar type)
    | "enum" => some (.enum type)
    | "object" => some (.object type (if relation.isTruthy then some relation else none))
    | _ => none
  | _ => none

def Field.ofDocument (model raw : Value) : Except Fault Field := do
  let entries ← raw.entries
  let name := entryOrNull "name" entries
  let type := entryOrNull "type" entries
  if name.isTruthy && type.isTruthy then
    let tag := entryOrNull "kind" entries
    match Kind.ofTag? tag type (entryOrNull "relationName" entries) with
    | some kind => return ⟨name, kind, (entryOrNull "isList" entries).isTruthy⟩
    | none => definitionError (.unsupportedKind tag model name)
  else definitionError (.incompleteField model raw)

def Model.ofDocument (isComposite : Bool) (raw : Value) : Except Fault Model := do
  let entries ← raw.entries
  let name := entryOrNull "name" entries
  if name.isTruthy then
    let fields ← (← contentsOf "fields" entries).mapM (Field.ofDocument name)
    Model.make name fields isComposite
  else definitionError (.unnamedModel raw)

/-! ## Enums -/

def enumValue : Value → Except Fault Value
  | .map entries =>
    match Value.lookup? "name" entries with
    | some name => .ok name
    | none => .error (.missingKey "name")
  | v => .ok (.str v.display)

def enumOfDocument (raw : Value) : Except Fault (Value × List Value) := do
  let entries ← raw.entries
  let name := entryOrNull "name" entries
  if name.isTruthy then
    let values ← (← contentsOf "values" entries).mapM enumValue
    name.asKey
    return (name, values)
  else definitionError (.unnamedEnum raw)

/-! ## Documents and files -/

namespace Registry

def ofDocument (document : Value) : Except Fault Registry := do
  match document with
  | .map entries =>
    let datamodel ← ((Value.lookup? "datamodel" entries).getD document).entries
    let models ← (← listUnder "models" datamodel).mapM (Model.ofDocument false)
    let composites ← (← listUnder "types" datamodel).mapM (Model.ofDocument true)
    let enums ← (← listUnder "enums" datamodel).mapM enumOfDocument
    Registry.make models composites (.ofEntries enums)
  | _ => definitionError .notAnObject

/-- Line ends of either foreign form as line feeds. -/
def unixLines : List Char → List Char
  | '\r' :: '\n' :: rest => '\n' :: unixLines rest
  | '\r' :: rest => '\n' :: unixLines rest
  | c :: rest => c :: unixLines rest
  | [] => []

/-- The registry of a JSON document in a file, which is given by its name and by its bytes if it is there. -/
def ofFile (file : String) (content : Option ByteArray) : Except Fault Registry :=
  match content with
  | none =>
    definitionError (.unreadable file ("[Errno 2] No such file or directory: " ++ quotedText file))
  | some bytes =>
    match String.fromUTF8? bytes with
    | none => .error .notUtf8
    | some text =>
      match Json.read (String.ofList (unixLines text.toList)) with
      | .ok document => ofDocument document
      | .error (.malformed complaint place) =>
        definitionError (.unreadable file (Json.Fault.malformed complaint place).message)
      | .error fault => .error (.json fault)

end Registry
end ListQuery
