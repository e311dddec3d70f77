import ListQuery.Value.Text
/-!
# Canonical JSON text

One text per value: the entries of a map stand in the order of their keys, separators have one blank, and everything
beyond printable ASCII is escaped.  Tuples are written as arrays, and values that JSON has no form for as strings.
-/
namespace ListQuery.Json

def unitEscape (n : Nat) : List Char := '\\' :: 'u' :: hexadecimal 4 n

/-- A character inside a string; one beyond sixteen bits takes two surrogates. -/
def escapedChar (c : Char) : List Char :=
  let n := c.toNat
  if c = '"' ∨ c = '\\' then ['\\', c]
  else if c = '\n' then ['\\', 'n']
  else if c = '\r' then ['\\', 'r']
  else if c = '\t' then ['\\', 't']
  else if c = '\x08' then ['\\', 'b']
  else if c = '\x0c' then ['\\', 'f']
  else if 0x20 ≤ n ∧ n < 0x7F then [c]
  else if n < 0x10000 then unitEscape n
  else unitEscape (0xD800 + (n - 0x10000) / 0x400) ++ unitEscape (0xDC00 + (n - 0x10000) % 0x400)

def stringChars (s : String) : List Char := '"' :: s.toList.flatMap escapedChar ++ ['"']

def floatChars : Binary64 → List Char
  | .nan => "NaN".toList
  | .infinite negative => (if negative then "-Infinity" else "Infinity").toList
  | x => x.text.toList

def commaSeparated : List (List Char) → List Char
  | [] => []
  | [row] => row
  | row :: rows => row ++ ',' :: ' ' :: commaSeparated rows

def sortEntries (entries : List (String × List Char)) : List (String × List Char) :=
  entries.mergeSort fun a b => a.1 ≤ b.1

mutual

def canonicalChars : Value → List Char
  | .null => "null".toList
  | .bool b => (if b then "true" else "false").toList
  | .int n => signedDecimal n
  | .float x => floatChars x
  | .str s => stringChars s
  | .list items | .tuple items => '[' :: commaSeparated (canonicalItems items) ++ [']']
  | .map entries =>
    '{' :: commaSeparated ((sortEntries (canonicalEntries entries)).map fun e => stringChars e.1 ++ ':' :: ' ' :: e.2)
      ++ ['}']
  | v => stringChars v.display

def canonicalItems : List Value → List (List Char)
  | [] => []
  | v :: rest => canonicalChars v :: canonicalItems rest

def canonicalEntries : List (String × Value) → List (String × List Char)
  | [] => []
  | (k, v) :: rest => (k, canonicalChars v) :: canonicalEntries rest

end

def canonical (v : Value) : String := String.ofList (canonicalChars v)

end ListQuery.Json
