/-!
# Hexadecimal digits

A byte is written as two hexadecimal digits in lower case, the high half first. Digits are read in
either case.

Main statement: what `Hex.encode` writes, `Hex.decode?` reads back (`decode?_encode`).
-/

namespace HookedAutomata.Hex

/-- The digit of a value below 16, in lower case. -/
def digit (n : Nat) : Char := Nat.digitChar n

/-- The value of a digit, in either case. -/
def value? (c : Char) : Option Nat :=
  if '0' ≤ c ∧ c ≤ '9' then some (c.toNat - '0'.toNat)
  else if 'a' ≤ c ∧ c ≤ 'f' then some (c.toNat - 'a'.toNat + 10)
  else if 'A' ≤ c ∧ c ≤ 'F' then some (c.toNat - 'A'.toNat + 10)
  else none

def byte (b : UInt8) : List Char := [digit (b.toNat / 16), digit (b.toNat % 16)]

/-- Bytes as digits, two for each byte. -/
def encode (l : List UInt8) : List Char := l.flatMap byte

/-- The bytes that digits stand for; there must be two digits for each. -/
def decode? : List Char → Option (List UInt8)
  | [] => some []
  | [_] => none
  | high :: low :: rest => do
    let h ← value? high
    let l ← value? low
    let bytes ← decode? rest
    return UInt8.ofNat (h * 16 + l) :: bytes

/-- A digit below 16 is read as what it was written for. -/
theorem value?_digit {n : Nat} (h : n < 16) : value? (digit n) = some n := by
  revert n; decide

theorem decode?_encode (l : List UInt8) : decode? (encode l) = some l := by
  induction l with
  | nil => rfl
  | cons b l ih =>
    have hb := b.toNat_lt
    have hhigh := value?_digit (n := b.toNat / 16) (by omega)
    have hlow := value?_digit (n := b.toNat % 16) (by omega)
    have hsum : UInt8.ofNat (b.toNat / 16 * 16 + b.toNat % 16) = b := by
      rw [show b.toNat / 16 * 16 + b.toNat % 16 = b.toNat by omega]
      exact UInt8.ofNat_toNat
    change decode? (digit (b.toNat / 16) :: digit (b.toNat % 16) :: encode l) = _
    rw [decode?, hhigh, hlow, ih]
    change some (UInt8.ofNat (b.toNat / 16 * 16 + b.toNat % 16) :: l) = _
    rw [hsum]

end HookedAutomata.Hex
