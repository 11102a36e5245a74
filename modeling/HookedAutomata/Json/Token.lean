import HookedAutomata.Json.Numeral
import HookedAutomata.Json.TextScan

/-!
# Tokens of JSON texts

Brackets, commas, colons, and scalar values. `Lexer` reads a text character by character and gives
tokens as they become complete (`Lexer.step`, `Lexer.finish`). A number is complete only at the
character after it, which may be a token of its own.

Where a text is no JSON, or ends inside a token, the last token says so and how, for a reader and
for one who skips it. Nothing follows such a token.
-/

namespace HookedAutomata

/-- A token of a JSON text. -/
inductive Token where
  | openList
  | closeList
  | openObject
  | closeObject
  | comma
  | colon
  | text (s : Option String)
  -- any other scalar
  | scalar (v : Reading)
  -- a text that breaks off
  | brokenText (read skip : Fault)
  -- anything else that breaks off
  | broken (read skip : Fault)

/-- Where in a token the reading of a text is. -/
inductive Lexer where
  | blank
  -- in a word with the letters to come and the value it stands for
  | word (rest : List Char) (value : Reading)
  | number (n : NumberScan)
  | text (t : TextScan)
  -- behind a break
  | halted

namespace Lexer

def isBlank (c : Char) : Bool := c == ' ' || c == '\n' || c == '\t' || c == '\r'

def blankStep (c : Char) : List Token × Lexer :=
  if isBlank c then ([], blank)
  else
    match c with
    | '[' => ([.openList], blank)
    | ']' => ([.closeList], blank)
    | '\x7b' => ([.openObject], blank)
    | '\x7d' => ([.closeObject], blank)
    | ',' => ([.comma], blank)
    | ':' => ([.colon], blank)
    | '"' => ([], text {})
    | 'n' => ([], word ['u', 'l', 'l'] .null)
    | 't' => ([], word ['r', 'u', 'e'] (.flag true))
    | 'f' => ([], word ['a', 'l', 's', 'e'] (.flag false))
    | c =>
      match NumberScan.first? c with
      | some n => ([], number n)
      | none => ([.broken .malformed .malformed], halted)

/-- Reads on by one character: the tokens that are complete now, and where the reading is. -/
def step : Lexer → Char → List Token × Lexer
  | blank, c => blankStep c
  | word [] v, c => ([.scalar v] ++ (blankStep c).1, (blankStep c).2)
  | word (d :: rest) v, c =>
    if c = d then if rest.isEmpty then ([.scalar v], blank) else ([], word rest v)
    else ([.broken .malformed .malformed], halted)
  | number n, c =>
    match n.step c with
    | .more n => ([], number n)
    | .over => (.scalar (.number n.numeral) :: (blankStep c).1, (blankStep c).2)
    | .wrong => ([.broken .malformed .malformed], halted)
  | text t, c =>
    match t.step c with
    | .more t => ([], text t)
    | .closed s => ([.text s], blank)
    | .wrong => ([.brokenText .malformed .malformed], halted)
  | halted, _ => ([], halted)

/-- The tokens that are complete at the end of the text. A number that may not end here is ended too
early for a reader, and malformed for one who skips it. -/
def finish : Lexer → List Token
  | blank => []
  | word _ _ => [.broken .ended .ended]
  | number n =>
    if n.isComplete then [.scalar (.number n.numeral)] else [.broken .ended .malformed]
  | text t => [.brokenText (t.readFault .ended) .ended]
  | halted => []

end Lexer

end HookedAutomata
