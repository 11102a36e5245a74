import HookedAutomata.Table.Closure

/-!
# Automata

An automaton has a start state, an error state, the names of its end states and a table. Its table
is open to edits; the start and the error state are pinned in it, so an edit that names one of them
means the automaton's own instance.

End states are known by name: a name may be an end name without a state of that name in the table
(`Automaton.endStates` lists those that are there).
-/

namespace HookedAutomata

variable {κ : Type} [CustomTrigger κ]

/-- Start state, error state, end names and transition table. -/
structure Automaton (κ : Type) [CustomTrigger κ] where
  start : State
  -- where a step goes that cannot be taken
  error : State
  endNames : NameSet
  table : Table κ

namespace Automaton

/-- The automaton of the given parts. The start state is pinned in the table and then the error
state, so the error state stands for both if they have one name. -/
def assemble (start error : State) (endNames : NameSet) (table : Table κ) : Automaton κ where
  start := start
  error := error
  endNames := endNames
  table := (table.pin start).pin error

def isEnd (a : Automaton κ) (name : String) : Bool := a.endNames.has name

def endStates (a : Automaton κ) : StateSet := a.table.states.filter fun s => a.isEnd s.name

/-- All states: those of the table, the start state and the error state. Of two instances of one
name the first of these stays. -/
def states (a : Automaton κ) : StateSet := (a.table.states.insert a.start).insert a.error

def state? (a : Automaton κ) (name : String) : Option State := a.states.find? name

end Automaton

end HookedAutomata
