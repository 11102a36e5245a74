import HookedAutomata.Text.Hex

/-!
# JSON values and how they are written

The JSON values that saved records are made of: numbers are natural, and the members of an object
keep their order.

`Json.render` writes a value over several lines: each item of a list and each member of an object
on a line of its own, two blanks further in than the bracket that opens it, and an empty list or
object as its two brackets. A text escapes quotes, backslashes and control characters, and holds
every other character as it is.
-/

namespace HookedAutomata

/-- A JSON value with natural numbers. -/
inductive Json where
  | null
  | flag (b : Bool)
  | number (n : Nat)
  | text (s : String)
  | list (items : List Json)
  | object (members : List (String × Json))

namespace Json

def escape (c : Char) : List Char :=
  match c with
  | '"' => ['\\', '"']
  | '\\' => ['\\', '\\']
  | '\x08' => ['\\', 'b']
  | '\x0c' => ['\\', 'f']
  | '\n' => ['\\', 'n']
  | '\r' => ['\\', 'r']
  | '\t' => ['\\', 't']
  | c => if c.toNat < 0x20 then ['\\', 'u', '0', '0'] ++ Hex.byte (UInt8.ofNat c.toNat) else [c]

def quote (s : String) : List Char := '"' :: s.toList.flatMap escape ++ ['"']

/-- A line break and the blanks before what stands `depth` brackets deep. -/
def newline (depth : Nat) : List Char := '\n' :: List.replicate (2 * depth) ' '

mutual

/-- A value written over several lines, `depth` brackets deep. -/
def render (depth : Nat) : Json → List Char
  | null => ['n', 'u', 'l', 'l']
  | flag true => ['t', 'r', 'u', 'e']
  | flag false => ['f', 'a', 'l', 's', 'e']
  | number n => Nat.toDigits 10 n
  | text s => quote s
  | list [] => ['[', ']']
  | list (v :: vs) =>
    '[' :: (newline (depth + 1) ++ (render (depth + 1) v ++ (renderItems (depth + 1) vs ++
      (newline depth ++ [']']))))
  | object [] => ['\x7b', '\x7d']
  | object ((k, v) :: ms) =>
    '\x7b' :: (newline (depth + 1) ++ (quote k ++ (':' :: ' ' :: (render (depth + 1) v ++
      (renderMembers (depth + 1) ms ++ (newline depth ++ ['\x7d']))))))

def renderItems (depth : Nat) : List Json → List Char
  | [] => []
  | v :: vs => ',' :: (newline depth ++ (render depth v ++ renderItems depth vs))

def renderMembers (depth : Nat) : List (String × Json) → List Char
  | [] => []
  | (k, v) :: ms =>
    ',' :: (newline depth ++ (quote k ++ (':' :: ' ' :: (render depth v ++
      renderMembers depth ms))))

end

def toText (v : Json) : String := String.ofList (render 0 v)

/-- An optional value, absent values being null. -/
def ofOption {α : Type} (f : α → Json) : Option α → Json
  | none => null
  | some a => f a

end Json

end HookedAutomata
