import HookedAutomata.Text.Visible

/-!
# Quoted texts and characters

The quoted form shows a text on one line, between quotes, so that no two texts look alike:

* the quote that ends the form and the backslash are escaped by a backslash;
* newline, carriage return, tab and the null character have their own letters;
* any other character that is not visible is written by its code point in hexadecimal.

A text is quoted by `"` and a character by `'`; the other quote stands for itself.
-/

namespace HookedAutomata.Text

/-- A character by its code point: `\\u`, then the hexadecimal digits in braces. -/
def codePoint (c : Char) : List Char :=
  ['\\', 'u', '\x7b'] ++ Nat.toDigits 16 c.toNat ++ ['\x7d']

/-- A character inside a form that ends at the character `quote`. -/
def escaped (quote c : Char) : List Char :=
  if c = quote then ['\\', c]
  else match c with
  | '\\' => ['\\', '\\']
  | '\n' => ['\\', 'n']
  | '\r' => ['\\', 'r']
  | '\t' => ['\\', 't']
  | '\x00' => ['\\', '0']
  | c => if isVisible c then [c] else codePoint c

def quoted (s : String) : String :=
  String.ofList ('"' :: s.toList.flatMap (escaped '"') ++ ['"'])

def quotedChar (c : Char) : String :=
  String.ofList ('\'' :: escaped '\'' c ++ ['\''])

end HookedAutomata.Text
