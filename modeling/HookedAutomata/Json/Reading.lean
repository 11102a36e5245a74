/-!
# JSON texts as far as they can be read

Reading a JSON text may fail because the text is no JSON, because it stops too early, or because
it holds something else than was asked for. All that counts is which of these comes first when the
text is read from left to right. Whether something *is* asked for matters too: what nobody asks
for is only skipped, and skipping is more lenient than reading.

A `Reading` keeps all of this. It is the tree of a text up to the place where it breaks off, and
the break is part of the tree. What asks for a value meets the faults in the order of the text:

* a number too large to be held and a text with half a surrogate pair are whole as far as skipping
  goes and a fault for whoever reads them;
* a value that breaks off says what fault that is for a reader and what fault for one who skips it
  (`Reading.broken`);
* a list or an object that breaks off says where: after its last item (`stop`).

Nothing follows a break. So a value as a whole is skipped by a look at its end
(`Reading.skipFault`), however deep it nests.
-/

namespace HookedAutomata

/-- Why a saved form cannot be read. -/
inductive Fault where
  | ended
  | malformed
  -- the text is JSON of a kind that was not asked for
  | unfit
  deriving DecidableEq

def Fault.category : Fault → String
  | ended => "eof"
  | malformed => "syntax"
  | unfit => "data"

/-- What is kept of a number. -/
structure Numeral where
  -- its value, if it is written with digits alone and fits 64 bits
  natural? : Option Nat
  -- whether it is beyond the numbers that can be held
  tooLarge : Bool := false
  deriving DecidableEq

/-- A JSON text as far as it can be read. -/
inductive Reading where
  | null
  | flag (b : Bool)
  | number (n : Numeral)
  -- a text; `none` if it has half a surrogate pair
  | text (s : Option String)
  -- the items of a list, and the fault found where a comma or a bracket should be, if any
  | list (items : List Reading) (stop : Option Fault)
  -- the members of an object, and the fault found where the next key or the end should be, if
  -- any; a key is `none` if it has half a surrogate pair
  | object (members : List (Option String × Reading)) (stop : Option Fault)
  -- a value that breaks off: the fault for a reader, and the fault for one who skips it
  | broken (read skip : Fault)

namespace Reading

instance : Inhabited Reading := ⟨null⟩

/-- The fault met when a value is skipped. -/
def skipFault : Reading → Option Fault
  | broken _ skip => some skip
  | list _ stop => stop
  | object _ stop => stop
  | _ => none

/-- The fault met when something else is asked for than is there. A scalar is read to its end
before it is found unfit, a list or an object is found unfit at once. -/
def mismatch : Reading → Fault
  | broken read _ => read
  | text none => .malformed
  | number n => if n.tooLarge then .malformed else .unfit
  | _ => .unfit

end Reading

/-- A whole text: its value, and the fault of what follows the value, if anything does. -/
structure Document where
  root : Reading
  -- the fault found after the value
  trailing : Option Fault

/-- Throws a fault, if there is one. -/
def Fault.raise : Option Fault → Except Fault Unit
  | some f => .error f
  | none => .ok ()

/-- What a decoder makes of a text: nothing may follow the value. -/
def Document.decode {α : Type} (d : Document) (f : Reading → Except Fault α) : Except Fault α := do
  let a ← f d.root
  Fault.raise d.trailing
  return a

end HookedAutomata
