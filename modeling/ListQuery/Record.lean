/-!
# Log records

What happens beside a result is kept as records, in the order in which it happened.
-/
namespace ListQuery

inductive Level where
  | debug
  | warning
  deriving DecidableEq

inductive Speaker where
  | filters
  | search
  deriving DecidableEq

structure Record where
  level : Level
  speaker : Speaker
  message : String
  deriving DecidableEq

end ListQuery
