import HookedAutomata.Text.Hex

/-!
# Identifiers of runs

A run is known by a universally unique identifier of 16 bytes. It is written as 32 hexadecimal
digits in groups of 8, 4, 4, 4 and 12, with hyphens between (`Uuid.toText`). Three more ways to
write it are read: without hyphens, with hyphens and in braces, and with hyphens after `urn:uuid:`
(`Uuid.ofText?`).
-/

namespace HookedAutomata

/-- An identifier of 16 bytes. -/
structure Uuid where
  bytes : List UInt8
  length_bytes : bytes.length = 16
  deriving DecidableEq

namespace Uuid

/-- The identifier of the given bytes, if there are 16. -/
def ofBytes? (l : List UInt8) : Option Uuid := if h : l.length = 16 then some ⟨l, h⟩ else none

/-- The identifier that ends in the given number and has zeros before it. -/
def ofNat (n : Nat) : Uuid where
  bytes := (List.range 16).map fun i => UInt8.ofNat (n / Nat.pow 256 (15 - i))
  length_bytes := by simp

instance : Inhabited Uuid := ⟨ofNat 0⟩

/-- The written form: groups of digits with hyphens between. -/
def toText (u : Uuid) : String :=
  let digits := Hex.encode u.bytes
  String.ofList (digits.take 8 ++ '-' :: (digits.drop 8).take 4 ++ '-' :: (digits.drop 12).take 4 ++
    '-' :: (digits.drop 16).take 4 ++ '-' :: digits.drop 20)

def ofDigits? (l : List Char) : Option Uuid := Hex.decode? l >>= ofBytes?

def ofHyphenated? (l : List Char) : Option Uuid :=
  if l.length = 36 ∧ [8, 13, 18, 23].all fun i => l[i]? == some '-' then
    ofDigits? (l.take 8 ++ (l.drop 9).take 4 ++ (l.drop 14).take 4 ++ (l.drop 19).take 4 ++
      l.drop 24)
  else none

/-- The letters before an identifier that is written as a name of its own. -/
def urnPrefix : List Char := "urn:uuid:".toList

/-- Reads an identifier in any of its written forms, which are told apart by their lengths. -/
def ofText? (s : String) : Option Uuid :=
  let l := s.toList
  if l.length = 32 then ofDigits? l
  else if l.length = 36 then ofHyphenated? l
  else if l.length = 38 ∧ l.head? = some '\x7b' ∧ l.getLast? = some '\x7d' then
    ofHyphenated? (l.drop 1).dropLast
  else if l.length = 45 ∧ (l.take 9).map Char.toLower = urnPrefix then ofHyphenated? (l.drop 9)
  else none

end Uuid

end HookedAutomata
