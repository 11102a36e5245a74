import HookedAutomata.Json.Magnitude
import HookedAutomata.Json.Reading

/-!
# Reading numbers character by character

A number is an optional minus sign, digits without leading zeros, optionally a point and digits,
and optionally an exponent. `NumberScan` is a number half read; `NumberScan.step` reads on by one
character. A number ends at the first character that cannot be part of it.

Of the digits only so many count as make up a number of 64 bits. A digit that would take it further
is dropped, and so are the digits after it, up to the point or the end. A digit that is dropped
before the point leaves its power of ten (`NumberScan.takeWhole`), and one behind the point leaves
nothing (`NumberScan.takeFraction`).
-/

namespace HookedAutomata

/-- What of a number comes next. -/
inductive NumberPhase where
  -- the first digit, after a sign
  | sign
  -- anything but a digit, after a zero in front
  | zero
  -- more digits
  | whole
  -- the first digit after the point
  | point
  -- more digits after the point
  | fraction
  -- a sign or a digit, after the mark of the exponent
  | mark
  -- the first digit of the exponent, after its sign
  | markSign
  -- more digits of the exponent
  | exponent
  deriving DecidableEq

/-- A number half read. -/
structure NumberScan where
  phase : NumberPhase
  negative : Bool := false
  -- the digits that count, as one number
  digits : Nat := 0
  -- whether a digit was dropped, before the point or behind it, wherever the reading is
  full : Bool := false
  -- the power of ten by which the digits are to be multiplied, without the exponent
  scale : Int := 0
  exponentNegative : Bool := false
  exponent : Nat := 0

/-- What a further character does to a number half read. -/
inductive NumberStep where
  | more (n : NumberScan)
  -- it comes after the number
  | over
  | wrong

def digitValue (c : Char) : Nat := c.toNat - '0'.toNat

namespace NumberScan

/-- A number of which the first character has been read, if that can be one. -/
def first? (c : Char) : Option NumberScan :=
  if c = '-' then some { phase := .sign, negative := true }
  else if c = '0' then some { phase := .zero }
  else if c.isDigit then some { phase := .whole, digits := digitValue c }
  else none

/-- Whether a further digit is dropped. -/
def drops (n : NumberScan) (c : Char) : Bool := n.full || UInt64.size ≤ n.digits * 10 + digitValue c

def takeWhole (n : NumberScan) (c : Char) : NumberScan :=
  if n.drops c then { n with phase := .whole, full := true, scale := n.scale + 1 }
  else { n with phase := .whole, digits := n.digits * 10 + digitValue c }

def takeFraction (n : NumberScan) (c : Char) : NumberScan :=
  if n.drops c then { n with phase := .fraction, full := true }
  else { n with phase := .fraction, digits := n.digits * 10 + digitValue c, scale := n.scale - 1 }

/-- Reads on after the digits that may end a number: a point if `point` allows one, an exponent, or
the end. -/
def afterDigits (n : NumberScan) (point : Bool) (c : Char) : NumberStep :=
  if point && c == '.' then .more { n with phase := .point, full := false }
  else if c = 'e' ∨ c = 'E' then .more { n with phase := .mark }
  else .over

/-- Reads on by one character. -/
def step (n : NumberScan) (c : Char) : NumberStep :=
  match n.phase with
  | .sign =>
    if c = '0' then .more { n with phase := .zero }
    else if c.isDigit then .more (n.takeWhole c)
    else .wrong
  | .zero => if c.isDigit then .wrong else n.afterDigits true c
  | .whole => if c.isDigit then .more (n.takeWhole c) else n.afterDigits true c
  | .point => if c.isDigit then .more (n.takeFraction c) else .wrong
  | .fraction => if c.isDigit then .more (n.takeFraction c) else n.afterDigits false c
  | .mark =>
    if c = '+' then .more { n with phase := .markSign }
    else if c = '-' then .more { n with phase := .markSign, exponentNegative := true }
    else if c.isDigit then .more { n with phase := .exponent, exponent := digitValue c }
    else .wrong
  | .markSign =>
    if c.isDigit then .more { n with phase := .exponent, exponent := digitValue c } else .wrong
  | .exponent =>
    if c.isDigit then .more { n with exponent := n.exponent * 10 + digitValue c } else .over

def isComplete (n : NumberScan) : Bool :=
  match n.phase with
  | .zero | .whole | .fraction | .exponent => true
  | .sign | .point | .mark | .markSign => false

/-- Whether the number is written with digits alone, all of which count. -/
def isNatural (n : NumberScan) : Bool :=
  (n.phase == .zero || n.phase == .whole) && !n.negative && !n.full

/-- The power of ten by which the digits are to be multiplied. -/
def power (n : NumberScan) : Int :=
  n.scale + if n.exponentNegative then -(n.exponent : Int) else n.exponent

def numeral (n : NumberScan) : Numeral where
  natural? := if n.isNatural then some n.digits else none
  tooLarge := Magnitude.isTooLarge n.digits n.power

end NumberScan

end HookedAutomata
