import ListQuery.Binary64.Basic
import ListQuery.Entries
import ListQuery.Timestamp.Basic
/-!
# Values

What a query carries and what a row holds: the values of JSON, and beside them timestamps, spans of time, byte strings,
fixed tuples, sets, and records, which are objects that are read by attribute.  A `badTime` stands for a timestamp that could
not be read and keeps the text.
-/
namespace ListQuery

/-- With which objects an object is one key: with no other one, or with all that share its number, since they are equal to it
or are that object again.  Or it can be no key at all. -/
inductive Identity where
  | own
  | shared (number : Nat)
  | unhashable
  deriving DecidableEq, Inhabited

namespace Identity

def isHashable : Identity → Bool
  | unhashable => false
  | _ => true

/-- Whether objects at two places are equal as keys; an object of its own is equal to none at another place. -/
def same : Identity → Identity → Bool
  | shared m, shared n => m == n
  | _, _ => false

end Identity

/-- What the kind of an object decides: its identity, and how it is written, as a literal and as running text. -/
structure Handle where
  identity : Identity
  literal : String
  display : String
  deriving DecidableEq, Inhabited

inductive Value where
  | null
  | bool (b : Bool)
  | int (n : Int)
  | float (x : Binary64)
  | str (s : String)
  | bytes (octets : List UInt8)
  | time (t : Timestamp)
  | badTime (raw : String)
  | span (micros : Int)
  | list (items : List Value)
  | tuple (items : List Value)
  | set (items : List Value)
  | map (entries : List (String × Value))
  | record (handle : Handle) (attributes : List (String × Value))
  deriving Inhabited

namespace Value

/-! ## Entries of a map -/

def lookup? (key : String) (entries : List (String × Value)) : Option Value := Entries.find? (· == key) entries

def insert (key : String) (value : Value) (entries : List (String × Value)) : List (String × Value) :=
  Entries.alter (· == key) key (fun _ => value) entries

/-- The map of a row of entries, in which a repeated key keeps its first place and its last value. -/
def mapOf (entries : List (String × Value)) : List (String × Value) :=
  entries.foldl (fun m e => insert e.1 e.2 m) []

theorem lookup?_insert (key other : String) (value : Value) (entries : List (String × Value)) :
    lookup? other (insert key value entries) = if other = key then some value else lookup? other entries := by
  unfold lookup? insert
  by_cases h : other = key
  · subst h
    rw [if_pos rfl]
    exact Entries.find?_alter_self _ (by simp) entries
  · rw [if_neg h]
    refine Entries.find?_alter_of_ne _ (by simpa using Ne.symm h) (fun k hk => ?_) entries
    obtain rfl : k = key := by simpa using hk
    simpa using Ne.symm h

/-! ## Truth

Null, false, zero of either kind, and empty texts and collections count as not given. -/

def isTruthy : Value → Bool
  | null => false
  | bool b => b
  | int n => n != 0
  | float x => x.isNonzero
  | str s => s != ""
  | bytes octets => !octets.isEmpty
  | span micros => micros != 0
  | list items | tuple items | set items => !items.isEmpty
  | map entries => !entries.isEmpty
  | time _ | badTime _ | record .. => true

/-! ## Hashing

Only a hashable value can be a key.  Lists, sets and maps are not hashable, a tuple is if all of its parts are, and an object
if its identity allows it. -/

mutual

def isHashable : Value → Bool
  | list _ | set _ | map _ => false
  | tuple items => allHashable items
  | record handle _ => handle.identity.isHashable
  | _ => true

def allHashable : List Value → Bool
  | [] => true
  | v :: rest => isHashable v && allHashable rest

end

/-! ## Equality of keys

Numbers are equal by value, whatever their kind, and truth values count as one and zero.  `nan` is equal to nothing, and
so is an object of its own; objects that share their identity are equal whatever else they hold. -/

def asInt? : Value → Option Int
  | int n => some n
  | bool b => some (if b then 1 else 0)
  | _ => none

/-- Equality of two numbers; `none` if one of the values is no number. -/
def sameNumber? : Value → Value → Option Bool
  | float x, float y => some (x.sameNumber y)
  | float x, w => w.asInt?.map x.sameInt
  | v, float y => v.asInt?.map y.sameInt
  | v, w => do return (← v.asInt?) == (← w.asInt?)

mutual

def sameKey : Value → Value → Bool
  | null, null => true
  | str s, str t => s == t
  | bytes a, bytes b => a == b
  | time t, time u => t.sameTime u
  | badTime a, badTime b => a == b
  | span a, span b => a == b
  | tuple a, tuple b => sameKeys a b
  | record a _, record b _ => a.identity.same b.identity
  | v, w => (sameNumber? v w).getD false

def sameKeys : List Value → List Value → Bool
  | [], [] => true
  | v :: vs, w :: ws => sameKey v w && sameKeys vs ws
  | _, _ => false

end

end Value
end ListQuery
