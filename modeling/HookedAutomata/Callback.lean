import HookedAutomata.Text.Quoted

/-!
# Callbacks and hooks

A state has three hooks: one for entering it, one for leaving it and one for staying in it
(`Slot`). A hook is empty or holds a `Callback`: a name, under which it is saved, and what it does
when it is run.

What a callback does is a list of effects. It may leave a label in the log, and it may replace a
hook of any state that the host has given a handle, its own included. All else that a host has its
callbacks do is code of its own, which a callback calls. Such code may look at everything before it
changes anything, and it may put the callback that calls it back into a slot.
-/

namespace HookedAutomata

/-- The hooks of a state. -/
inductive Slot where
  | entry
  | exit
  -- run when a state is kept because no transition applies
  | stay
  deriving DecidableEq

/-- One thing that a callback does, over the type `γ` of callbacks. -/
inductive Effect (γ : Type) where
  | emit (label : String)
  -- replaces a hook of the state that has the handle, if there is one
  | rewire (handle : String) (slot : Slot) (hook : Option γ)
  -- runs a piece of the host's code. What it does is up to the host
  | call (piece : Nat)

/-- A named action. -/
structure Callback where
  -- the name under which the callback is saved; callbacks of one name count as equal
  name : String
  effects : List (Effect Callback)

namespace Callback

/-- Whether two callbacks count as equal: they have the same name. -/
def same (a b : Callback) : Bool := a.name == b.name

/-- Whether two hooks count as equal: both empty, or callbacks of the same name. -/
def sameHook : Option Callback → Option Callback → Bool
  | none, none => true
  | some a, some b => a.same b
  | _, _ => false

/-- The form that shows a callback to a programmer. -/
def inspect (c : Callback) : String :=
  "Callback \x7b name: " ++ Text.quoted c.name ++ ", .. \x7d"

end Callback

/-- The three hooks of an instance of a state. -/
structure Hooks where
  entry : Option Callback := none
  exit : Option Callback := none
  stay : Option Callback := none

namespace Hooks

def get (h : Hooks) : Slot → Option Callback
  | .entry => h.entry
  | .exit => h.exit
  | .stay => h.stay

def set (h : Hooks) (hook : Option Callback) : Slot → Hooks
  | .entry => { h with entry := hook }
  | .exit => { h with exit := hook }
  | .stay => { h with stay := hook }

/-- The replaced hook is the one found afterwards, and the other hooks stay. -/
@[simp] theorem get_set (h : Hooks) (hook : Option Callback) (slot other : Slot) :
    (h.set hook slot).get other = if other = slot then hook else h.get other := by
  cases slot <;> cases other <;> rfl

end Hooks

end HookedAutomata
