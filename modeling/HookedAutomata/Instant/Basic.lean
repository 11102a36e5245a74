/-!
# Instants

The moment at which a run was saved, as date and time of day in universal time, to the nanosecond.
A minute may have a second 60, for leap seconds.

That the parts make up a moment that exists is part of the type: `Instant.exists` says that months,
days and times of day are within their bounds and that the year is one of those that can be held.
-/

namespace HookedAutomata

/-- Date and time of day, in whatever zone. -/
structure CivilTime where
  -- the year; 0 comes before 1, and negative years before it
  year : Int
  month : Nat
  day : Nat
  hour : Nat
  minute : Nat
  -- the second, from 0 to 60
  second : Nat
  -- the nanoseconds, below one second
  nanos : Nat
  deriving DecidableEq

namespace CivilTime

def isLeapYear (year : Int) : Bool := year % 4 == 0 && (year % 100 != 0 || year % 400 == 0)

def daysInMonth (year : Int) (month : Nat) : Nat :=
  match month with
  | 2 => if isLeapYear year then 29 else 28
  | 4 | 6 | 9 | 11 => 30
  | _ => 31

/-- Whether the parts make up a moment that exists and can be held. -/
def isValid (t : CivilTime) : Bool :=
  (-262143 ≤ t.year && t.year ≤ 262142) && (1 ≤ t.month && t.month ≤ 12) &&
    (1 ≤ t.day && t.day ≤ daysInMonth t.year t.month) && t.hour < 24 && t.minute < 60 &&
    t.second ≤ 60 && t.nanos < 1000000000

def previousDay (t : CivilTime) : CivilTime :=
  if 1 < t.day then { t with day := t.day - 1 }
  else if 1 < t.month then
    { t with month := t.month - 1, day := daysInMonth t.year (t.month - 1) }
  else { t with year := t.year - 1, month := 12, day := 31 }

def nextDay (t : CivilTime) : CivilTime :=
  if t.day < daysInMonth t.year t.month then { t with day := t.day + 1 }
  else if t.month < 12 then { t with month := t.month + 1, day := 1 }
  else { t with year := t.year + 1, month := 1, day := 1 }

/-- The same date and second, so many minutes after midnight. -/
def atMinute (t : CivilTime) (minutes : Nat) : CivilTime :=
  { t with hour := minutes / 60, minute := minutes % 60 }

/-- The time that is the given number of minutes earlier, for less than a day, either way. -/
def minutesEarlier (t : CivilTime) (minutes : Int) : CivilTime :=
  let total : Int := t.hour * 60 + t.minute - minutes
  if total < 0 then t.previousDay.atMinute (total + 1440).toNat
  else if 1440 ≤ total then t.nextDay.atMinute (total - 1440).toNat
  else t.atMinute total.toNat

end CivilTime

/-- A moment in universal time. -/
structure Instant where
  civil : CivilTime
  valid : civil.isValid = true
  deriving DecidableEq

namespace Instant

/-- The moment of the given date and time of day, if there is one. -/
def ofCivil? (t : CivilTime) : Option Instant := if h : t.isValid = true then some ⟨t, h⟩ else none

/-- The beginning of 1970. -/
def epoch : Instant := ⟨⟨1970, 1, 1, 0, 0, 0, 0⟩, by decide⟩

instance : Inhabited Instant := ⟨epoch⟩

end Instant

end HookedAutomata
