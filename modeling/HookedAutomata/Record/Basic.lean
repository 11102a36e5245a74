import HookedAutomata.Instant.Basic
import HookedAutomata.Policy
import HookedAutomata.Trigger.Basic
import HookedAutomata.Uuid

/-!
# Records

Records describe automata and runs by names alone: states and callbacks by their names, triggers by
tag and payload. They can be saved as they are; turning them back into automata and runs needs
registries that know the callbacks and the kinds of trigger.

Transitions of a record are ordered by source, tag and payload (`TransitionRecord.le`).
-/

namespace HookedAutomata

/-- The name that stands for no callback. -/
def noCallback : String := "none"

def recordVersion : UInt32 := 1

/-- A state and the names of its callbacks. -/
structure StateRecord where
  name : String
  -- the callback for entering, or the name that stands for none
  entry : String
  exit : Option String
  stay : Option String
  deriving DecidableEq

namespace StateRecord

def named (name : String) : StateRecord := ⟨name, noCallback, none, none⟩

/-- The names of all callbacks of a state. The name that stands for none is left out for entering,
where it is not the name of a callback. -/
def callbackNames (r : StateRecord) : List String :=
  (if r.entry = noCallback then [] else [r.entry]) ++ r.exit.toList ++ r.stay.toList

end StateRecord

/-- A trigger by tag and payload. -/
structure TriggerRecord where
  tag : String
  payload : String
  deriving DecidableEq

namespace TriggerRecord

/-- The order of triggers: by tag, then by payload. -/
def order (a b : TriggerRecord) : Ordering :=
  (compare a.tag b.tag).then (compare a.payload b.payload)

/-- Whether one trigger comes before another or is the same. -/
def le (a b : TriggerRecord) : Bool := (a.order b).isLE

end TriggerRecord

def Trigger.toRecord {κ : Type} [CustomTrigger κ] (t : Trigger κ) : TriggerRecord :=
  ⟨t.tag, t.payload⟩

/-- A transition by names. -/
structure TransitionRecord where
  source : String
  trigger : TriggerRecord
  targets : List String
  deriving DecidableEq

/-- Whether one transition comes before another, by source and trigger, or has the same. -/
def TransitionRecord.le (a b : TransitionRecord) : Bool :=
  ((compare a.source b.source).then (a.trigger.order b.trigger)).isLE

/-- An automaton by names. -/
structure AutomatonRecord where
  states : List StateRecord
  transitions : List TransitionRecord
  start : String
  -- the error state, which need not be among the states
  error : StateRecord
  ends : List String
  deriving DecidableEq

/-- A run, with its automaton, by names. -/
structure RunRecord where
  version : UInt32
  id : Uuid
  savedAt : Instant
  automaton : AutomatonRecord
  current : List String
  -- the names in each snapshot of end states, the oldest first
  history : List (List String)
  policy : Policy
  deriving DecidableEq

end HookedAutomata
