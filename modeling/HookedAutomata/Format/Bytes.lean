/-!
# Values as bytes

The pieces of the compact saved form: numbers of a fixed width with the least significant byte
first, and runs of bytes whose length is known.

A reader takes its bytes from the front and gives back the rest, so what follows a value does not
matter to the reader of the value.
-/

namespace HookedAutomata

/-- Why bytes cannot be read. -/
inductive BinaryError where
  | tooShort
  | notUtf8
  | badFlag
  | badOption
  -- the bytes are of the right shape and stand for nothing
  | badContent
  deriving DecidableEq

def BinaryError.name : BinaryError → String
  | tooShort => "Io"
  | notUtf8 => "InvalidUtf8Encoding"
  | badFlag => "InvalidBoolEncoding"
  | badOption => "InvalidTagEncoding"
  | badContent => "Custom"

/-- A reader that takes a value from the front and gives back the rest. -/
abbrev ByteReader (α : Type) := List UInt8 → Except BinaryError (α × List UInt8)

namespace Bytes

/-- A number in `width` bytes, the least significant first. -/
def littleEndian : Nat → Nat → List UInt8
  | 0, _ => []
  | width + 1, n => UInt8.ofNat n :: littleEndian width (n / 256)

/-- The number that bytes stand for, the least significant first. -/
def ofLittleEndian : List UInt8 → Nat
  | [] => 0
  | b :: l => b.toNat + 256 * ofLittleEndian l

def take : Nat → ByteReader (List UInt8)
  | 0, l => .ok ([], l)
  | _ + 1, [] => .error .tooShort
  | n + 1, b :: l => do
    let (bytes, rest) ← take n l
    return (b :: bytes, rest)

def takeNat (width : Nat) : ByteReader Nat := fun l => do
  let (bytes, rest) ← take width l
  return (ofLittleEndian bytes, rest)

/-- Takes the given number of values, one after the other. -/
def takeMany {α : Type} (read : ByteReader α) : Nat → ByteReader (List α)
  | 0, l => .ok ([], l)
  | n + 1, l => do
    let (a, rest) ← read l
    let (as, rest) ← takeMany read n rest
    return (a :: as, rest)

/-- A length, in eight bytes. -/
def length (n : Nat) : List UInt8 := littleEndian 8 n

def takeLength : ByteReader Nat := takeNat 8

end Bytes

end HookedAutomata
