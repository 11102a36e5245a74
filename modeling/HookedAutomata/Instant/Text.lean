import HookedAutomata.Instant.Basic
import HookedAutomata.Text.Blank

/-!
# Instants as texts

An instant is written `YYYY-MM-DDThh:mm:ss`, a fraction of the second and `Z` (`Instant.toText`).
The fraction has three, six or nine digits, the fewest that leave nothing out, and none for whole
seconds. A year of more or fewer than four digits has a sign.

Reading (`Instant.ofText?`) is more lenient. White space may stand before each part, months and
the like may have one digit, the letter between date and time may be `t` or a blank, and the
fraction may have any number of digits, of which nine count. The time may be given in any zone, by
its offset in hours and minutes, and is turned into universal time.
-/

namespace HookedAutomata

namespace Instant

/-! ## Writing -/

/-- A number in decimal digits, with zeros before it to make up the width. -/
def padded (width n : Nat) : List Char :=
  let digits := Nat.toDigits 10 n
  List.replicate (width - digits.length) '0' ++ digits

/-- A year: four digits, or a sign and at least four digits. -/
def yearText (year : Int) : List Char :=
  if 0 ≤ year ∧ year ≤ 9999 then padded 4 year.toNat
  else (if year < 0 then '-' else '+') :: padded 4 year.natAbs

def fractionText (nanos : Nat) : List Char :=
  if nanos = 0 then []
  else if nanos % 1000000 = 0 then '.' :: padded 3 (nanos / 1000000)
  else if nanos % 1000 = 0 then '.' :: padded 6 (nanos / 1000)
  else '.' :: padded 9 nanos

def toText (t : Instant) : String :=
  let c := t.civil
  String.ofList (yearText c.year ++ '-' :: padded 2 c.month ++ '-' :: padded 2 c.day ++
    'T' :: padded 2 c.hour ++ ':' :: padded 2 c.minute ++ ':' :: padded 2 c.second ++
    fractionText c.nanos ++ ['Z'])

/-! ## Reading

Each reader takes a part from the front and gives back the rest. -/

/-- Digits onto a number, from the left. -/
def digitsValue (l : List Char) : Nat := Nat.ofDigitChars 10 l 0

/-- Reads digits, at least one and at most `width`. -/
def digits? (width : Nat) (l : List Char) : Option (Nat × List Char) :=
  let digits := (l.take width).takeWhile Char.isDigit
  if digits.isEmpty then none else some (digitsValue digits, l.drop digits.length)

/-- Reads a part of a date or time: white space, then one or two digits. -/
def part? (l : List Char) : Option (Nat × List Char) := digits? 2 (Text.dropBlank l)

/-- Reads a year: white space, then up to four digits, or a sign and any number of them. -/
def year? (l : List Char) : Option (Int × List Char) :=
  match Text.dropBlank l with
  | '-' :: rest => (digits? rest.length rest).map fun (n, rest) => (-(n : Int), rest)
  | '+' :: rest => (digits? rest.length rest).map fun (n, rest) => ((n : Int), rest)
  | rest => (digits? 4 rest).map fun (n, rest) => ((n : Int), rest)

/-- Reads a separator: white space, then the character. -/
def separator? (c : Char) (l : List Char) : Option (List Char) :=
  match Text.dropBlank l with
  | d :: rest => if d = c then some rest else none
  | [] => none

/-- Reads the fraction of a second, if there is one. Nine digits count, and others are passed over.
-/
def fraction? (l : List Char) : Option (Nat × List Char) :=
  match l with
  | '.' :: rest =>
    let digits := rest.takeWhile Char.isDigit
    let nine := digits.take 9
    if digits.isEmpty then none
    else some (digitsValue nine * Nat.pow 10 (9 - nine.length), rest.drop digits.length)
  | _ => some (0, l)

/-- Reads two digits, which must be there both. -/
def twoDigits? (l : List Char) : Option (Nat × List Char) :=
  match l with
  | a :: b :: rest => if a.isDigit ∧ b.isDigit then some (digitsValue [a, b], rest) else none
  | _ => none

/-- Reads hours and minutes of an offset, after its sign. Colons and white space may stand between
them. The offset must be below one day. -/
def offsetMinutes? (l : List Char) : Option (Nat × List Char) := do
  let (hours, rest) ← twoDigits? l
  let (minutes, rest) ← twoDigits? (rest.dropWhile fun c => c == ':' || Text.isBlank c)
  if hours < 24 ∧ minutes < 60 then some (hours * 60 + minutes, rest) else none

/-- Reads the zone: its name, or its offset in minutes. -/
def zone? (l : List Char) : Option (Int × List Char) :=
  if (l.take 3).map Char.toUpper = ['U', 'T', 'C'] then some (0, l.drop 3)
  else match l with
  | 'Z' :: rest | 'z' :: rest => some (0, rest)
  | '+' :: rest => (offsetMinutes? rest).map fun (n, rest) => ((n : Int), rest)
  | '-' :: rest | '−' :: rest => (offsetMinutes? rest).map fun (n, rest) => (-(n : Int), rest)
  | _ => none

def dateEnd? (l : List Char) : Option (List Char) :=
  match l with
  | 'T' :: rest | 't' :: rest | ' ' :: rest => some rest
  | _ => none

def civil? (l : List Char) : Option (CivilTime × Int × List Char) := do
  let (year, l) ← year? l
  let l ← separator? '-' l
  let (month, l) ← part? l
  let l ← separator? '-' l
  let (day, l) ← part? l
  let l ← dateEnd? l
  let (hour, l) ← part? l
  let l ← separator? ':' l
  let (minute, l) ← part? l
  let l ← separator? ':' l
  let (second, l) ← part? l
  let (nanos, l) ← fraction? l
  let (offset, l) ← zone? (Text.dropBlank l)
  return (⟨year, month, day, hour, minute, second, nanos⟩, offset, l)

/-- Reads an instant. The moment must exist in its own zone and in universal time, and nothing but
white space may follow. -/
def ofText? (s : String) : Option Instant := do
  let (t, offset, rest) ← civil? s.toList
  if t.isValid ∧ (Text.dropBlank rest).isEmpty then ofCivil? (t.minutesEarlier offset) else none

end Instant

end HookedAutomata
