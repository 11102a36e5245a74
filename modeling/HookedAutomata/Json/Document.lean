import HookedAutomata.Json.Token

/-!
# From tokens to documents

`Assembler` puts tokens together to the tree of a document, with a stack of the lists and objects
that are open. `Document.ofText` reads a whole text, one character at a time.

Where a text breaks off, the open lists and objects are closed around the break, each with the fault
that one meets who skips it (`Assembler.collapse`).
-/

namespace HookedAutomata

/-- A list or an object that is open. What it holds so far is kept with the latest first. -/
inductive Frame where
  -- a list, in which a further item is being read
  | list (items : List Reading)
  -- an object, in which the value of a key is being read
  | object (members : List (Option String × Reading)) (key : Option String)

/-- What comes next in a document half read. -/
inductive Assembler where
  | value (stack : List Frame)
  -- the first item of a list, or its end
  | firstItem (stack : List Frame)
  -- a comma or the end of a list, after these items
  | afterItem (items : List Reading) (stack : List Frame)
  -- the first key of an object, or its end
  | firstKey (stack : List Frame)
  -- a key, after these members and a comma
  | nextKey (members : List (Option String × Reading)) (stack : List Frame)
  -- a colon, after these members and a key
  | afterKey (members : List (Option String × Reading)) (key : Option String) (stack : List Frame)
  -- a comma or the end of an object, after these members
  | afterMember (members : List (Option String × Reading)) (stack : List Frame)
  -- nothing: the value is complete
  | complete (root : Reading)
  -- nothing that counts: the document has broken off
  | stopped (d : Document)

namespace Assembler

/-- The tree around a value that breaks off: what is open is closed, with fault `f` for one who
skips it. -/
def collapse (f : Fault) (v : Reading) : List Frame → Reading
  | [] => v
  | .list items :: stack => collapse f (.list (items.reverse ++ [v]) (some f)) stack
  | .object members key :: stack =>
    collapse f (.object (members.reverse ++ [(key, v)]) (some f)) stack

def stop (f : Fault) (v : Reading) (stack : List Frame) : Assembler :=
  .stopped ⟨collapse f v stack, none⟩

def stopValue (read skip : Fault) (stack : List Frame) : Assembler :=
  stop skip (.broken read skip) stack

/-- Breaks off in a list where a comma or the end should be. -/
def stopList (f : Fault) (items : List Reading) (stack : List Frame) : Assembler :=
  stop f (.list items.reverse (some f)) stack

/-- Breaks off in an object where a key, a comma or the end should be. -/
def stopObject (f : Fault) (members : List (Option String × Reading)) (stack : List Frame) :
    Assembler :=
  stop f (.object members.reverse (some f)) stack

/-- Breaks off inside a key. One who reads the key may meet a fault of its own there. -/
def stopKey (read skip : Fault) (members : List (Option String × Reading)) (stack : List Frame) :
    Assembler :=
  if read = skip then stopObject skip members stack
  else stopObject skip ((none, .broken skip skip) :: members) stack

def finishValue (v : Reading) : List Frame → Assembler
  | [] => .complete v
  | .list items :: stack => .afterItem (v :: items) stack
  | .object members key :: stack => .afterMember ((key, v) :: members) stack

def takeValue (stack : List Frame) : Token → Assembler
  | .openList => .firstItem stack
  | .openObject => .firstKey stack
  | .text s => finishValue (.text s) stack
  | .scalar v => finishValue v stack
  | .brokenText read skip | .broken read skip => stopValue read skip stack
  | .closeList | .closeObject | .comma | .colon => stopValue .malformed .malformed stack

def takeKey (members : List (Option String × Reading)) (stack : List Frame) : Token → Assembler
  | .text s => .afterKey members s stack
  | .brokenText read skip => stopKey read skip members stack
  | _ => stopObject .malformed members stack

def push : Assembler → Token → Assembler
  | .value stack, t => takeValue stack t
  | .firstItem stack, .closeList => finishValue (.list [] none) stack
  | .firstItem stack, t => takeValue (.list [] :: stack) t
  | .afterItem items stack, .comma => .value (.list items :: stack)
  | .afterItem items stack, .closeList => finishValue (.list items.reverse none) stack
  | .afterItem items stack, _ => stopList .malformed items stack
  | .firstKey stack, .closeObject => finishValue (.object [] none) stack
  | .firstKey stack, t => takeKey [] stack t
  | .nextKey members stack, t => takeKey members stack t
  | .afterKey members key stack, .colon => .value (.object members key :: stack)
  | .afterKey members key stack, _ =>
    stopValue .malformed .malformed (.object members key :: stack)
  | .afterMember members stack, .comma => .nextKey members stack
  | .afterMember members stack, .closeObject => finishValue (.object members.reverse none) stack
  | .afterMember members stack, _ => stopObject .malformed members stack
  | .complete root, _ => .stopped ⟨root, some .malformed⟩
  | .stopped d, _ => .stopped d

def finish : Assembler → Document
  | .value stack => ⟨collapse .ended (.broken .ended .ended) stack, none⟩
  | .firstItem stack => ⟨collapse .ended (.list [] (some .ended)) stack, none⟩
  | .afterItem items stack => ⟨collapse .ended (.list items.reverse (some .ended)) stack, none⟩
  | .firstKey stack => ⟨collapse .ended (.object [] (some .ended)) stack, none⟩
  | .nextKey members stack =>
    ⟨collapse .ended (.object members.reverse (some .ended)) stack, none⟩
  | .afterKey members key stack =>
    ⟨collapse .ended (.broken .ended .ended) (.object members key :: stack), none⟩
  | .afterMember members stack =>
    ⟨collapse .ended (.object members.reverse (some .ended)) stack, none⟩
  | .complete root => ⟨root, none⟩
  | .stopped d => d

end Assembler

/-- A text half read: where in a token, and what of the document there is. -/
structure Reader where
  lexer : Lexer := .blank
  assembler : Assembler := .value []

namespace Reader

/-- Reads on by one character. -/
def step (r : Reader) (c : Char) : Reader :=
  let (tokens, lexer) := r.lexer.step c
  ⟨lexer, tokens.foldl Assembler.push r.assembler⟩

def finish (r : Reader) : Document := (r.lexer.finish.foldl Assembler.push r.assembler).finish

end Reader

def Document.ofText (s : String) : Document := (s.toList.foldl Reader.step {}).finish

end HookedAutomata
