import ListQuery.Text.DecimalDigit
import ListQuery.Text.Printable
/-!
# Quoted literals

A literal stands between two equal quote marks.  The mark is the apostrophe, except for a text that holds an apostrophe
and no double quote.  The mark itself and the backslash take a backslash; line feed, carriage return and tab have short
escapes; every other character that may not stand as itself is written by its code point.
-/
namespace ListQuery

def quoteMark (cs : List Char) : Char := if cs.contains '\'' && !cs.contains '"' then '"' else '\''

def quotedChar (verbatim : Char → Bool) (mark c : Char) : List Char :=
  if c = mark ∨ c = '\\' then ['\\', c]
  else if c = '\n' then ['\\', 'n']
  else if c = '\r' then ['\\', 'r']
  else if c = '\t' then ['\\', 't']
  else if verbatim c then [c]
  else if c.toNat < 0x100 then '\\' :: 'x' :: hexadecimal 2 c.toNat
  else if c.toNat < 0x10000 then '\\' :: 'u' :: hexadecimal 4 c.toNat
  else '\\' :: 'U' :: hexadecimal 8 c.toNat

/-- The literal of a row of characters, of which the `verbatim` ones stand as themselves. -/
def quotedChars (verbatim : Char → Bool) (cs : List Char) : List Char :=
  let mark := quoteMark cs
  mark :: cs.flatMap (quotedChar verbatim mark) ++ [mark]

def quotedText (s : String) : String := String.ofList (quotedChars isPrintable s.toList)

/-- The literal of a row of bytes: only printable ASCII stands as itself, and a `b` goes in front. -/
def quotedBytes (bytes : List UInt8) : String :=
  String.ofList ('b' :: quotedChars (fun c => 0x20 ≤ c.toNat && c.toNat < 0x7F) (bytes.map fun b => Char.ofNat b.toNat))

end ListQuery
