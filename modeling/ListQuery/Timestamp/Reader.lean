import ListQuery.Timestamp.Basic
/-!
# Reading timestamps

The date comes in three forms, each with dashes or compact: month and day, week and day, or week alone.  If anything
follows, its first character separates date and time and may be any character at all.  The time has hours, then minutes
and seconds if they are given, all with colons or none, then a fraction of a second; it may end in an offset that begins
at the first plus or minus sign and is written in the same way.
-/
namespace ListQuery

def asciiDigit? (c : Char) : Option Nat := if c.isDigit then some (c.toNat - '0'.toNat) else none

def digits? : (count : Nat) → List Char → Option (Nat × List Char)
  | 0, cs => some (0, cs)
  | _ + 1, [] => none
  | count + 1, c :: cs => do
    let d ← asciiDigit? c
    let (n, rest) ← digits? count cs
    return (d * Nat.pow 10 count + n, rest)

/-! ## Dates -/

/-- The day behind a dashed week.  A dash whose next-but-one character is a digit separates date and time instead. -/
def dashedWeekday? : List Char → Option (Nat × List Char)
  | ['-'] => none
  | '-' :: d :: rest =>
    if (rest.head?.bind asciiDigit?).isSome then some (1, '-' :: d :: rest) else digits? 1 (d :: rest)
  | rest => some (1, rest)

/-- The day behind a compact week.  In a longer run of digits the hours and smaller units take an even count, and the
separator one, which tells whether a day is among them. -/
def compactWeekday? (cs : List Char) : Option (Nat × List Char) :=
  let run := (cs.takeWhile Char.isDigit).length
  if run = 1 ∨ (run ≠ 0 ∧ run % 2 = 0) then digits? 1 cs else some (1, cs)

def readDate? (cs : List Char) : Option (Date × List Char) := do
  let (year, rest) ← digits? 4 cs
  match rest with
  | '-' :: 'W' :: rest =>
    let (week, rest) ← digits? 2 rest
    let (day, rest) ← dashedWeekday? rest
    return (← Date.ofWeek? year week day, rest)
  | 'W' :: rest =>
    let (week, rest) ← digits? 2 rest
    let (day, rest) ← compactWeekday? rest
    return (← Date.ofWeek? year week day, rest)
  | '-' :: rest =>
    let (month, rest) ← digits? 2 rest
    match rest with
    | '-' :: rest =>
      let (day, rest) ← digits? 2 rest
      return (← Date.of? year month day, rest)
    | _ => none
  | rest =>
    let (month, rest) ← digits? 2 rest
    let (day, rest) ← digits? 2 rest
    return (← Date.of? year month day, rest)

/-! ## Clock readings -/

/-- A clock reading: the units from hours down, the fraction, and whether something that is no part of it follows. -/
structure ClockReading where
  units : List Nat
  micros : Nat
  leftover : Bool

inductive AfterUnit where
  | nothing (leftover : Bool)
  | unit (rest : List Char)
  | fraction (rest : List Char)

/-- A last single ASCII character is left over, unless it is NUL, which ends the text.  Otherwise a colon, a decimal mark
or, in the compact form, the next unit itself must follow. -/
def afterUnit? (colons : Bool) : List Char → Option AfterUnit
  | [] => some (.nothing false)
  | c :: rest =>
    if rest.isEmpty ∧ c.toNat < 0x80 then some (.nothing (c != '\x00'))
    else if colons ∧ c = ':' then some (.unit rest)
    else if c = '.' ∨ c = ',' then some (.fraction rest)
    else if colons then none
    else some (.unit (c :: rest))

/-- Six digits of a fraction count, and more of them are skipped; with fewer the text must end. -/
def readFraction? (units : List Nat) (cs : List Char) : Option ClockReading := do
  let count := min 6 cs.length
  let (n, rest) ← digits? count cs
  let rest := rest.dropWhile Char.isDigit
  return ⟨units, n * Nat.pow 10 (6 - count), rest.head?.any (· != '\x00')⟩

def readUnits? (colons : Bool) : (count : Nat) → (units : List Nat) → List Char → Option ClockReading
  | 0, units, cs => readFraction? units cs
  | count + 1, units, cs => do
    let (n, rest) ← digits? 2 cs
    match ← afterUnit? colons rest with
    | .nothing leftover => return ⟨units ++ [n], 0, leftover⟩
    | .unit rest => readUnits? colons count (units ++ [n]) rest
    | .fraction rest => readFraction? (units ++ [n]) rest

/-- Reads hours, minutes and seconds; a colon behind the hours settles the form. -/
def readClock? (cs : List Char) : Option ClockReading := readUnits? ((cs.drop 2).head? == some ':') 3 [] cs

/-- Reads the size of an offset.  One of no whole second is universal time. -/
def readOffset? (negative : Bool) (cs : List Char) : Option Offset := do
  let r ← readClock? cs
  if r.leftover then none
  let seconds := r.units.getD 0 0 * 3600 + r.units.getD 1 0 * 60 + r.units.getD 2 0
  let size : Int := if seconds = 0 then 0 else (seconds * microsPerSecond + r.micros : Nat)
  let micros := if negative then -size else size
  if h : micros.natAbs < microsPerDay then some ⟨micros, h⟩ else none

/-- Reads time and offset.  Something left over behind the time is tolerated only in front of an offset. -/
def readTime? (cs : List Char) : Option (Fin microsPerDay × Option Offset) := do
  let isSign := fun c => c == '+' || c == '-'
  let r ← readClock? (cs.takeWhile (!isSign ·))
  let time ← Timestamp.timeOfDay? (r.units.getD 0 0) (r.units.getD 1 0) (r.units.getD 2 0) r.micros
  match cs.dropWhile (!isSign ·) with
  | [] => if r.leftover then none else return (time, none)
  | sign :: rest => return (time, some (← readOffset? (sign == '-') rest))

def Timestamp.read? (cs : List Char) : Option Timestamp := do
  let (date, rest) ← readDate? cs
  match rest with
  | [] => return ⟨date, ⟨0, microsPerDay_pos⟩, none⟩
  | _ :: time =>
    let (micros, offset) ← readTime? time
    return ⟨date, micros, offset⟩

end ListQuery
