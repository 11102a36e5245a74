import HookedAutomata.Json.Reading
import HookedAutomata.Text.Hex

/-!
# Reading texts character by character

Inside quotes a text holds characters as they are, but for control characters, which are not
allowed, and escapes, which begin with a backslash. The escape `\u` gives a code unit of 16 bits by
four hexadecimal digits; two of them may make up a surrogate pair. `TextScan` is a text half read,
and `TextScan.step` reads on by one character.

Half a surrogate pair is a fault for whoever reads the text and none for one who skips it. So the
scan notes it and goes on (`TextScan.unpaired`).

The digits of an escape are taken as four bytes: with fewer than four bytes left the text has
ended, whatever they are.
-/

namespace HookedAutomata

/-- What of a text comes next. -/
inductive TextPhase where
  | plain
  | escape
  -- digits of an escape: the first half of a pair, if it was read before; the value so far, if all
  -- characters so far are digits; and how many bytes there were
  | unicode (high : Option Nat) (value : Option Nat) (bytes : Nat)
  -- the backslash that begins the second half of a pair
  | paired (high : Nat)
  -- the letter `u` of the second half of a pair
  | pairedEscape (high : Nat)

/-- A text half read. -/
structure TextScan where
  -- the characters read, the last one first
  chars : List Char := []
  -- whether there is half a surrogate pair among them
  unpaired : Bool := false
  phase : TextPhase := .plain

/-- What a further character does to a text half read. -/
inductive TextStep where
  | more (t : TextScan)
  | closed (s : Option String)
  | wrong

namespace TextScan

/-- Whether a code unit is the first half of a surrogate pair. -/
def isHigh (n : Nat) : Bool := 0xD800 ≤ n && n < 0xDC00

/-- Whether a code unit is the second half of a surrogate pair. -/
def isLow (n : Nat) : Bool := 0xDC00 ≤ n && n < 0xE000

def push (t : TextScan) (c : Char) : TextScan := { t with chars := c :: t.chars, phase := .plain }

def markUnpaired (t : TextScan) : TextScan := { t with unpaired := true, phase := .plain }

/-- What has been read, at the closing quote. -/
def content (t : TextScan) : Option String :=
  if t.unpaired then none else some (String.ofList t.chars.reverse)

/-- Reads a character that is not part of an escape. -/
def plainStep (t : TextScan) (c : Char) : TextStep :=
  if c = '"' then .closed t.content
  else if c = '\\' then .more { t with phase := .escape }
  else if c.toNat < 0x20 then .wrong
  else .more (t.push c)

def escapeStep (t : TextScan) (c : Char) : TextStep :=
  match c with
  | '"' | '\\' | '/' => .more (t.push c)
  | 'b' => .more (t.push '\x08')
  | 'f' => .more (t.push '\x0c')
  | 'n' => .more (t.push '\n')
  | 'r' => .more (t.push '\r')
  | 't' => .more (t.push '\t')
  | 'u' => .more { t with phase := .unicode none (some 0) 0 }
  | _ => .wrong

/-- The text with one more code unit, after the first half of a pair or not. -/
def pushUnit (t : TextScan) (high : Option Nat) (n : Nat) : TextScan :=
  match high with
  | none =>
    if isHigh n then { t with phase := .paired n }
    else if isLow n then t.markUnpaired
    else t.push (Char.ofNat n)
  | some h =>
    if isLow n then t.push (Char.ofNat (0x10000 + (h - 0xD800) * 0x400 + (n - 0xDC00)))
    else t.markUnpaired

def unicodeStep (t : TextScan) (high value : Option Nat) (bytes : Nat) (c : Char) : TextStep :=
  let value := do return (← value) * 16 + (← Hex.value? c)
  let bytes := bytes + c.utf8Size
  if bytes < 4 then .more { t with phase := .unicode high value bytes }
  else
    match value with
    | some n => .more (t.pushUnit high n)
    | none => .wrong

/-- Reads on by one character. -/
def step (t : TextScan) (c : Char) : TextStep :=
  match t.phase with
  | .plain => t.plainStep c
  | .escape => t.escapeStep c
  | .unicode high value bytes => t.unicodeStep high value bytes c
  | .paired high =>
    if c = '\\' then .more { t with phase := .pairedEscape high }
    else t.markUnpaired.plainStep c
  | .pairedEscape high =>
    if c = 'u' then .more { t with phase := .unicode (some high) (some 0) 0 }
    else t.markUnpaired.escapeStep c

/-- The fault for a reader of a text that breaks off with fault `f`: half a surrogate pair that was
noted before comes first. -/
def readFault (t : TextScan) (f : Fault) : Fault := if t.unpaired then .malformed else f

end TextScan

end HookedAutomata
