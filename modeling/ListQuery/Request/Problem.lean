import ListQuery.Value.Text
/-!
# Problems with request parameters

A rejection says why a value is not accepted, and a problem says which parameter it is about.  Every check of a request is
made, so that all problems are reported together.
-/
namespace ListQuery

inductive Rejection where
  | notAnInteger
  | unreadableInteger
  | tooLongInteger
  | fractionalNumber
  | infiniteNumber
  | belowOne
  | notADirection
  | notText
  | undecodableText
  | refused (reason : String)
  deriving DecidableEq

namespace Rejection

def code : Rejection → String
  | notAnInteger => "int_type"
  | unreadableInteger => "int_parsing"
  | tooLongInteger => "int_parsing_size"
  | fractionalNumber => "int_from_float"
  | infiniteNumber => "finite_number"
  | belowOne => "greater_than_equal"
  | notADirection => "literal_error"
  | notText => "string_type"
  | undecodableText => "string_unicode"
  | refused _ => "value_error"

def message : Rejection → String
  | notAnInteger => "Input should be a valid integer"
  | unreadableInteger => "Input should be a valid integer, unable to parse string as an integer"
  | tooLongInteger => "Unable to parse input string as an integer, exceeded maximum size"
  | fractionalNumber => "Input should be a valid integer, got a number with a fractional part"
  | infiniteNumber => "Input should be a finite number"
  | belowOne => "Input should be greater than or equal to 1"
  | notADirection => "Input should be 'asc' or 'desc'"
  | notText => "Input should be a valid string"
  | undecodableText => "Input should be a valid string, unable to parse raw data as a unicode string"
  | refused reason => "Value error, " ++ reason

end Rejection

/-- A rejection of the parameter of a name, or of the whole request under the empty name. -/
structure Problem where
  parameter : String
  rejection : Rejection
  deriving DecidableEq

inductive Checked (α : Type) where
  | valid (a : α)
  | invalid (problems : List Problem)

namespace Checked

def seq {α β : Type} : Checked (α → β) → Checked α → Checked β
  | valid f, valid a => valid (f a)
  | valid _, invalid q => invalid q
  | invalid p, valid _ => invalid p
  | invalid p, invalid q => invalid (p ++ q)

instance : Applicative Checked where
  pure := valid
  seq f x := seq f (x ())

def ofExcept {α : Type} (parameter : String) : Except Rejection α → Checked α
  | .ok a => valid a
  | .error r => invalid [⟨parameter, r⟩]

def toExcept {α ε : Type} (error : List Problem → ε) : Checked α → Except ε α
  | valid a => .ok a
  | invalid problems => .error (error problems)

end Checked
end ListQuery
