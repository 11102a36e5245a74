import HookedAutomata.Record.Basic
import HookedAutomata.Run

/-!
# Saving automata and runs

The record of an automaton lists its states in the order of their names and its transitions by
source, tag and payload. End names that belong to none of its states are left out: no run can see
them.

Transitions of equal source, tag and payload stay in the order of the table's entries.
-/

namespace HookedAutomata

variable {κ : Type} [CustomTrigger κ]

/-- The record of a state, with the callbacks that it has now. -/
def State.toRecord (w : Wiring) (s : State) : StateRecord where
  name := s.name
  entry := (w.hookName s .entry).getD noCallback
  exit := w.hookName s .exit
  stay := w.hookName s .stay

def Entry.toRecord (e : Entry κ) : TransitionRecord where
  source := e.source.name
  trigger := e.trigger.toRecord
  targets := e.targets.names

/-- The records of all entries of a table, in order. -/
def Table.toRecords (t : Table κ) : List TransitionRecord :=
  (t.transitions.entries.map Entry.toRecord).mergeSort TransitionRecord.le

def Automaton.toRecord (w : Wiring) (a : Automaton κ) : AutomatonRecord where
  states := a.states.toList.map (State.toRecord w)
  transitions := a.table.toRecords
  start := a.start.name
  error := a.error.toRecord w
  ends := a.endNames.toList.filter a.states.has

/-- The record of a run that is made at the given instant. -/
def Run.toRecord (w : Wiring) (savedAt : Instant) (r : Run κ) : RunRecord where
  version := recordVersion
  id := r.id
  savedAt := savedAt
  automaton := r.automaton.toRecord w
  current := r.current.names
  history := r.history.names
  policy := r.policy

end HookedAutomata
