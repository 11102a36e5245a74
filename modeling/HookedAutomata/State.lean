import HookedAutomata.SortedSet.Basic

/-!
# States

A state of an automaton is known by its name. Each state is also one particular *instance*: hooks
are attached to instances, so two instances of one name may behave differently, and replacing a
hook of an instance shows wherever that very instance is used.

A `State` is a handle to an instance: the name, and the number of the instance. Two handles are
equal when they denote the same instance; whether they have the same name is a question of its own.
-/

namespace HookedAutomata

/-- A handle to an instance of a state. -/
structure State where
  name : String
  -- the number of the instance, which hooks are attached to
  instanceId : Nat
  deriving DecidableEq, Inhabited

instance : Named State where
  name := State.name

@[simp] theorem Named.name_state (s : State) : Named.name s = s.name := rfl

/-- A set of states, at most one per name, in increasing order of names. -/
abbrev StateSet := SortedSet State

namespace State

def display (s : State) : String := s.name

/-- The order of two states, which is the order of their names. -/
def compareName (a b : State) : Ordering := compareOfLessAndEq a.name b.name

end State

end HookedAutomata
