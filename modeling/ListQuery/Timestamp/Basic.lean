import ListQuery.Timestamp.Calendar
/-!
# Timestamps

A timestamp is a date, a time of day in microseconds, and possibly the offset of its clock from universal time.  One
without an offset is *naive* and names no instant.
-/
namespace ListQuery

def microsPerSecond : Nat := 1000000
def microsPerMinute : Nat := 60 * microsPerSecond
def microsPerHour : Nat := 60 * microsPerMinute
def microsPerDay : Nat := 24 * microsPerHour

theorem microsPerDay_pos : 0 < microsPerDay := by decide

/-- How far a clock runs ahead of universal time: less than a day either way. -/
structure Offset where
  micros : Int
  underOneDay : micros.natAbs < microsPerDay
  deriving DecidableEq

def Offset.utc : Offset := ⟨0, by decide⟩

structure Timestamp where
  date : Date
  micros : Fin microsPerDay
  offset : Option Offset
  deriving DecidableEq

namespace Timestamp

/-! ## The fields of the clock -/

def hour (t : Timestamp) : Nat := t.micros.val / microsPerHour
def minute (t : Timestamp) : Nat := t.micros.val / microsPerMinute % 60
def second (t : Timestamp) : Nat := t.micros.val / microsPerSecond % 60
def microsecond (t : Timestamp) : Nat := t.micros.val % microsPerSecond

def timeOfDay? (hour minute second microsecond : Nat) : Option (Fin microsPerDay) :=
  if h : hour < 24 ∧ minute < 60 ∧ second < 60 ∧ microsecond < microsPerSecond then
    some ⟨hour * microsPerHour + minute * microsPerMinute + second * microsPerSecond + microsecond, by
      obtain ⟨h1, h2, h3, h4⟩ := h
      simp only [microsPerDay, microsPerHour, microsPerMinute, microsPerSecond] at *
      omega⟩
  else none

def first : Timestamp := ⟨⟨1, 1, 1, by decide⟩, ⟨0, microsPerDay_pos⟩, none⟩
def last : Timestamp := ⟨⟨9999, 12, 31, by decide⟩, ⟨microsPerDay - 1, by decide⟩, none⟩

/-! ## Instants -/

/-- The microseconds that a clock shows since the day before the first. -/
def clockMicros (t : Timestamp) : Int := t.date.ordinal * microsPerDay + t.micros.val

/-- The instant of a timestamp on the clock of universal time; a naive one is taken as it stands. -/
def instant (t : Timestamp) : Int :=
  t.clockMicros - (match t.offset with | some o => o.micros | none => 0)

def ofInstant? (i : Int) : Option Timestamp :=
  if 0 ≤ i then
    (Date.ofOrdinal? (i.toNat / microsPerDay)).map fun date =>
      ⟨date, ⟨i.toNat % microsPerDay, Nat.mod_lt _ microsPerDay_pos⟩, some .utc⟩
  else none

/-- The same instant in universal time; a naive timestamp stays as it is. -/
def toUtc? (t : Timestamp) : Option Timestamp :=
  match t.offset with
  | none => some t
  | some _ => ofInstant? t.instant

/-- Timestamps with offsets are the same when they name one instant, and naive ones when they show one clock reading; a
naive one never equals one with an offset. -/
def sameTime (t u : Timestamp) : Bool := t.offset.isSome == u.offset.isSome && t.instant == u.instant

end Timestamp
end ListQuery
