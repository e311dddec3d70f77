import ListQuery.Fault
/-!
# Settings

What applies where a request says nothing, and the bounds of what it may say.  Settings are not checked when they are
made: the defaults go through the checks of a request, and the others are checked where they are used.
-/
namespace ListQuery

structure Settings where
  defaultLimit : Value := .int 10
  defaultOrder : Value := .str "desc"
  maxLimit : Value := .null
  unassignedKey : Value := .str "unassigned"
  searchMode : Value := .str "insensitive"

namespace Settings

def set (s : Settings) (name : String) (value : Value) : Except Fault Settings :=
  match name with
  | "default_limit" => .ok { s with defaultLimit := value }
  | "default_order" => .ok { s with defaultOrder := value }
  | "max_limit" => .ok { s with maxLimit := value }
  | "unassigned_key" => .ok { s with unassignedKey := value }
  | "search_mode" => .ok { s with searchMode := value }
  | _ => .error (.unfit .parameters)

def ofEntries (entries : List (String × Value)) : Except Fault Settings :=
  entries.foldlM (fun s e => s.set e.1 e.2) {}

def entries (s : Settings) : List (String × Value) :=
  [("default_limit", s.defaultLimit), ("default_order", s.defaultOrder), ("max_limit", s.maxLimit),
    ("unassigned_key", s.unassignedKey), ("search_mode", s.searchMode)]

end Settings
end ListQuery
