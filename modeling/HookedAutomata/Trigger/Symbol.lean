import HookedAutomata.Trigger.Basic

/-!
# A stock of custom triggers

`Symbol` collects the kinds of custom trigger a host brings along: two kinds of digit, single
characters as a scanner sees them, classes of characters, and words compared without regard to
case.

Two symbols are equal only within one kind. `Symbol.digit` and `Symbol.digit2` are saved under one
tag and are never equal, so the saved form does not always tell two symbols apart;
`Symbol.word` compares letters of the basic alphabet without case, so two equal symbols may be
spelled differently.

The functions `parseDigit`, `parseToken`, `parseCharClass` and `parseWord` read a payload back.
-/

namespace HookedAutomata

/-- Classes of characters that a scanner tells apart. -/
inductive CharClass where
  | letter
  | digit
  | stop
  deriving DecidableEq

/-- The name of a class, which is also its written form. -/
def CharClass.name : CharClass → String
  | letter => "Letter"
  | digit => "Digit"
  | stop => "End"

/-- The custom triggers of the stock. -/
inductive Symbol where
  -- a digit, or any number below 256
  | digit (n : UInt8)
  -- a number of a second kind, saved like a digit but equal to none
  | digit2 (n : UInt8)
  | token (c : Char)
  | charClass (c : CharClass)
  -- a word that matches without regard to case
  | word (s : String)

namespace Symbol

/-- A word in the spelling that its comparison uses: letters of the basic alphabet in lower case. -/
def folded (s : String) : String := String.ofList (s.toList.map Char.toLower)

def beq : Symbol → Symbol → Bool
  | digit a, digit b => a == b
  | digit2 a, digit2 b => a == b
  | token a, token b => a == b
  | charClass a, charClass b => a == b
  | word a, word b => folded a == folded b
  | _, _ => false

def tag : Symbol → String
  | digit _ | digit2 _ => "digit"
  | token _ => "token"
  | charClass _ => "class"
  | word _ => "nocase"

def payload : Symbol → String
  | digit n | digit2 n => String.ofList (Nat.toDigits 10 n.toNat)
  | token c => String.singleton c
  | charClass c => c.name
  | word s => s

def inspect : Symbol → String
  | s@(digit _) => "Digit(" ++ s.payload ++ ")"
  | s@(digit2 _) => "Digit2(" ++ s.payload ++ ")"
  | token c => "Token(" ++ Text.quotedChar c ++ ")"
  | charClass c => c.name
  | word s => "Nocase(" ++ Text.quoted s ++ ")"

/-- The hash of a symbol; a word is hashed in its folded spelling. -/
def hashCode : Symbol → UInt64
  | digit n => mixHash 1 (hash n.toNat)
  | digit2 n => mixHash 2 (hash n.toNat)
  | token c => mixHash 3 (hash c.toNat)
  | charClass c => mixHash 4 (hash c.name)
  | word s => mixHash 5 (hash (folded s))

instance : CustomTrigger Symbol where
  beq := beq
  hash := hashCode
  tag := tag
  payload := payload
  inspect := inspect

/-- Matching is equality but for words, and words match by their folded spelling. -/
theorem beq_iff {a b : Symbol} :
    (a == b) = true ↔ a = b ∨ ∃ s t, a = word s ∧ b = word t ∧ folded s = folded t := by
  change beq a b = true ↔ _
  cases a <;> cases b <;> simp [beq]
  rintro rfl
  rfl

instance : EquivBEq Symbol where
  rfl := beq_iff.2 (.inl rfl)
  symm h := by
    rcases beq_iff.1 h with rfl | ⟨s, t, rfl, rfl, hst⟩
    · exact beq_iff.2 (.inl rfl)
    · exact beq_iff.2 (.inr ⟨t, s, rfl, rfl, hst.symm⟩)
  trans hab hbc := by
    rcases beq_iff.1 hab with rfl | ⟨s, t, rfl, rfl, hst⟩
    · exact hbc
    · rcases beq_iff.1 hbc with rfl | ⟨t', u, ht, rfl, htu⟩
      · exact hab
      · cases ht
        exact beq_iff.2 (.inr ⟨s, u, rfl, rfl, hst.trans htu⟩)

instance : LawfulHashable Symbol where
  hash_eq a b h := by
    rcases beq_iff.1 h with rfl | ⟨s, t, rfl, rfl, hst⟩
    · rfl
    · change mixHash 5 (hash (folded s)) = mixHash 5 (hash (folded t))
      rw [hst]

/-- Why a payload is no number below 256. -/
inductive NumberError where
  | empty
  -- some character is no digit, or there is a sign and no digit
  | invalidDigit
  | tooLarge

def NumberError.message : NumberError → String
  | empty => "cannot parse integer from empty string"
  | invalidDigit => "invalid digit found in string"
  | tooLarge => "number too large to fit in target type"

/-- Reads digits onto a value below 256, from the left; the first character at which the reading
cannot go on decides the error. -/
def readNumber (value : Nat) : List Char → Except NumberError Nat
  | [] => .ok value
  | c :: rest =>
    if !c.isDigit then .error .invalidDigit
    else if value * 10 + (c.toNat - '0'.toNat) < 256 then
      readNumber (value * 10 + (c.toNat - '0'.toNat)) rest
    else .error .tooLarge

/-- Reads a number below 256: digits, after one optional plus sign. -/
def parseNumber (s : String) : Except NumberError UInt8 :=
  match s.toList with
  | [] => .error .empty
  | ['+'] => .error .invalidDigit
  | '+' :: digits => (readNumber 0 digits).map UInt8.ofNat
  | digits => (readNumber 0 digits).map UInt8.ofNat

def parseDigit (s : String) : Except String Symbol :=
  ((parseNumber s).map digit).mapError NumberError.message

/-- Reads the payload of a token: exactly one character. -/
def parseToken (s : String) : Except String Symbol :=
  match s.toList with
  | [c] => .ok (token c)
  | _ => .error ("expected one character, got " ++ Text.quoted s)

def parseCharClass (s : String) : Except String Symbol :=
  match [CharClass.letter, .digit, .stop].find? fun c => c.name == s with
  | some c => .ok (charClass c)
  | none => .error ("unknown class " ++ Text.quoted s)

def parseWord (s : String) : Except String Symbol := .ok (word s)

end Symbol

end HookedAutomata
