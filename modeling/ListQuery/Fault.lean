import ListQuery.Json.Fault
import ListQuery.Request.Problem
import ListQuery.Similarity
import ListQuery.Value.Text
/-!
# Faults

A `QueryError` is one that the library reports in its own terms: it has a message and a detail for the answer to a
request.  A `Fault` is any reason why a call gives no result; beside query errors these are values that do not fit where
they stand, texts that cannot be decoded, and numbers out of range.
-/
namespace ListQuery

/-! ## Query errors -/

inductive DefinitionFault where
  | notAnObject
  | notAList (key : String)
  | unnamedModel (raw : Value)
  | unnamedEnum (raw : Value)
  | incompleteField (model raw : Value)
  | unsupportedKind (kind model name : Value)
  | unreadable (file reason : String)
  | stated (text : String)

/-- Messages about caller input, by the name of the input they are about. -/
abbrev InputMessages := List (String × List String)

inductive QueryError where
  | stated (text : String)
  | input (messages : InputMessages)
  | parameters (messages : InputMessages)
  | definition (fault : DefinitionFault)
  | searchFields (model : String) (invalid available : List String)
  | unknownModel (model : String) (available : List String)
  | nothingToSearch (model : String) (paths : List String)

/-- The name under which messages stand that are about no single input. -/
def wholeInput : String := "__root__"

/-- Texts in the order of their code points. -/
def sortTexts (texts : List String) : List String := texts.mergeSort fun a b => a ≤ b

def DefinitionFault.message : DefinitionFault → String
  | notAnObject => "Schema document must be a mapping"
  | notAList key => "'" ++ key ++ "' must be a list"
  | unnamedModel raw => "Model without a name: " ++ raw.literal
  | unnamedEnum raw => "Enum without a name: " ++ raw.literal
  | incompleteField model raw => "Field on '" ++ model.display ++ "' needs 'name' and 'type': " ++ raw.literal
  | unsupportedKind kind model name =>
    "Unsupported kind " ++ kind.literal ++ " for field '" ++ model.display ++ "." ++ name.display ++ "'"
  | unreadable file reason => "Cannot load schema from " ++ quotedText file ++ ": " ++ reason
  | stated text => text

/-- The messages of one input after its name, which is left out for messages about the whole input. -/
def inputMessage (name : String) (messages : List String) : String :=
  let joined := "; ".intercalate messages
  if name = wholeInput then joined else name ++ ": " ++ joined

def InputMessages.text (messages : InputMessages) : String :=
  ", ".intercalate (messages.map fun m => inputMessage m.1 m.2)

def addNew (seen : List String) (texts : List String) : List String :=
  texts.foldl (fun seen text => if text ∈ seen then seen else seen ++ [text]) seen

namespace QueryError

def suggestions : QueryError → List String
  | searchFields _ invalid available =>
    invalid.foldl (fun seen name => addNew seen (Similarity.closeMatches name (sortTexts available))) []
  | unknownModel model available => Similarity.closeMatches model (sortTexts available)
  | _ => []

def didYouMean (lead : String) (suggestions : List String) : String :=
  if suggestions.isEmpty then "" else lead ++ "Did you mean: " ++ ", ".intercalate suggestions ++ "?"

def message : QueryError → String
  | stated text => text
  | input messages | parameters messages => messages.text
  | definition fault => fault.message
  | searchFields model invalid available =>
    "Invalid fields found for model '" ++ model ++ "': " ++ ", ".intercalate invalid ++
      ". Fields must be scalar String or enum types." ++
      didYouMean "\n" (suggestions (searchFields model invalid available))
  | unknownModel model available =>
    "Model '" ++ model ++ "' not found in schema." ++ didYouMean " " (suggestions (unknownModel model available))
  | nothingToSearch model [] => "No searchable fields provided for model '" ++ model ++ "'"
  | nothingToSearch model paths =>
    "No valid scalar String or enum fields found for model '" ++ model ++ "' among provided fields: " ++
      ", ".intercalate paths

def textList (texts : List String) : Value := .list (texts.map .str)

def messagesValue (messages : InputMessages) : Value := .map (messages.map fun m => (m.1, textList m.2))

/-- The detail that goes into an answer; an error without a code of its own has the code of its kind. -/
def detail (kind : String) : QueryError → Value
  | input messages | parameters messages =>
    .map [("error", .str "VALIDATION_ERROR"), ("message", .str messages.text), ("errors", messagesValue messages)]
  | searchFields model invalid available =>
    .map [("error", .str "SCHEMA_VALIDATION_ERROR"), ("model", .str model), ("invalid_fields", textList invalid),
      ("suggestions", textList (suggestions (searchFields model invalid available)))]
  | unknownModel model available =>
    .map [("error", .str "UNKNOWN_MODEL"), ("model", .str model),
      ("suggestions", textList (suggestions (unknownModel model available)))]
  | nothingToSearch model paths =>
    .map [("error", .str "NO_SEARCHABLE_FIELDS"), ("model", .str model), ("fields", textList paths)]
  | e => .map [("error", .str kind), ("message", .str e.message)]

end QueryError

/-! ## Faults -/

/-- What a value should have been where it stands. -/
inductive Need where
  | object
  | parameters
  | collection
  | key
  | text
  | number

inductive Fault where
  | query (error : QueryError)
  | json (fault : Json.Fault)
  | missingKey (key : String)
  | unfit (need : Need)
  | notUtf8
  | notANumber
  | tooLarge
  | invalid (problems : List Problem)

end ListQuery
