import HookedAutomata.Format.Bytes
import HookedAutomata.Instant.Text
import HookedAutomata.Json.Basic
import HookedAutomata.Json.Document
import HookedAutomata.Uuid

/-!
# Saved forms

A `Format α` says how values of `α` are saved and read back, as JSON text and as bytes. Formats of
scalars are given here, with lists and optional values; the formats of records are put together
from those of their fields in `HookedAutomata.Format.Fields`.

As bytes, a text is its length and its UTF-8 form, a list its length and its items, and an optional
value a byte that says whether there is one. Identifiers and instants are texts in JSON; as bytes,
an identifier is its 16 bytes behind their number.
-/

namespace HookedAutomata

/-- How values are saved and read back. -/
structure Format (α : Type) where
  toJson : α → Json
  ofReading : Reading → Except Fault α
  toBytes : α → List UInt8
  -- the value at the front of bytes, and the rest of them
  ofBytes : ByteReader α

namespace Format

variable {α β : Type}

def toText (f : Format α) (a : α) : String := (f.toJson a).toText

/-- Reads a JSON text, which must hold one value and nothing else. -/
def ofText (f : Format α) (s : String) : Except Fault α := (Document.ofText s).decode f.ofReading

/-- Reads bytes. What follows the value does not matter. -/
def decode (f : Format α) (l : List UInt8) : Except BinaryError α := (f.ofBytes l).map (·.1)

/-! ## Scalars -/

def textBytes (s : String) : List UInt8 := Bytes.length s.toUTF8.size ++ s.toUTF8.data.toList

/-- Takes a text. That there are enough bytes comes before whether they are UTF-8. -/
def takeText : ByteReader String := fun l => do
  let (n, rest) ← Bytes.takeLength l
  let (bytes, rest) ← Bytes.take n rest
  match String.fromUTF8? ⟨bytes.toArray⟩ with
  | some s => return (s, rest)
  | none => .error .notUtf8

def readText : Reading → Except Fault String
  | .text (some s) => .ok s
  | v => .error v.mismatch

def text : Format String where
  toJson := .text
  ofReading := readText
  toBytes := textBytes
  ofBytes := takeText

def word32 : Format UInt32 where
  toJson n := .number n.toNat
  ofReading
    | .number ⟨some n, tooLarge⟩ =>
      if n < UInt32.size then .ok (UInt32.ofNat n)
      else .error (Reading.number ⟨some n, tooLarge⟩).mismatch
    | v => .error v.mismatch
  toBytes n := Bytes.littleEndian 4 n.toNat
  ofBytes l := do
    let (n, rest) ← Bytes.takeNat 4 l
    return (UInt32.ofNat n, rest)

def takeFlag (e : BinaryError) : ByteReader Bool
  | [] => .error .tooShort
  | b :: rest =>
    if b = 0 then .ok (false, rest) else if b = 1 then .ok (true, rest) else .error e

def flag : Format Bool where
  toJson := .flag
  ofReading
    | .flag b => .ok b
    | v => .error v.mismatch
  toBytes b := [if b then 1 else 0]
  ofBytes := takeFlag .badFlag

def uuid : Format Uuid where
  toJson u := .text u.toText
  ofReading v := do
    match Uuid.ofText? (← readText v) with
    | some u => return u
    | none => .error .unfit
  toBytes u := Bytes.length u.bytes.length ++ u.bytes
  ofBytes l := do
    let (n, rest) ← Bytes.takeLength l
    let (bytes, rest) ← Bytes.take n rest
    match Uuid.ofBytes? bytes with
    | some u => return (u, rest)
    | none => .error .badContent

/-- Instants, by their written form. -/
def moment : Format Instant where
  toJson t := .text t.toText
  ofReading v := do
    match Instant.ofText? (← readText v) with
    | some t => return t
    | none => .error .unfit
  toBytes t := textBytes t.toText
  ofBytes l := do
    let (s, rest) ← takeText l
    match Instant.ofText? s with
    | some t => return (t, rest)
    | none => .error .badContent

/-! ## Lists and optional values -/

/-- Optional values; an absent one is null. -/
def optional (f : Format α) : Format (Option α) where
  toJson
    | some a => f.toJson a
    | none => .null
  ofReading
    | .null => .ok none
    | v => (f.ofReading v).map some
  toBytes
    | some a => 1 :: f.toBytes a
    | none => [0]
  ofBytes l := do
    let (present, rest) ← takeFlag .badOption l
    if present then
      let (a, rest) ← f.ofBytes rest
      return (some a, rest)
    else return (none, rest)

def list (f : Format α) : Format (List α) where
  toJson l := .list (l.map f.toJson)
  ofReading
    | .list items stop => do
      let l ← items.mapM f.ofReading
      Fault.raise stop
      return l
    | v => .error v.mismatch
  toBytes l := Bytes.length l.length ++ l.flatMap f.toBytes
  ofBytes l := do
    let (n, rest) ← Bytes.takeLength l
    Bytes.takeMany f.ofBytes n rest

end Format

end HookedAutomata
