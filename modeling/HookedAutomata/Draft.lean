import HookedAutomata.Automaton

/-!
# Drafts of automata

A draft collects the parts of an automaton and refuses what does not fit. States come first: what
refers to a state by name means the instance that was added under that name, and is refused if
there is none. A call that is refused yields no draft, so the draft it was made on is as before.

Adding a transition for a key that has one adds targets to it (`Draft.addTransition`).

`Blueprint` is an automaton written down in one piece; `Blueprint.build` hands its parts to a
draft in a fixed order.
-/

namespace HookedAutomata

variable {κ : Type} [CustomTrigger κ]

/-- Why a part of an automaton or of a run is refused. -/
inductive BuildError where
  | duplicateState (name : String)
  | unknownState (name : String)
  | missingStartState
  | missingErrorState
  -- no automaton was given to run
  | missingAutomaton
  deriving DecidableEq

def BuildError.message : BuildError → String
  | duplicateState name =>
    "Already has a state named '" ++ name ++ "'. State names must be unique"
  | unknownState name => "No state named '" ++ name ++ "' found. Call .add_state() first"
  | missingStartState => "Start state not specified. Call .set_start_state() before .build()"
  | missingErrorState => "Error state not specified. Call .set_error_state() before .build()"
  | missingAutomaton => "Automate not specified. Call .automate() before .build()"

/-- The parts of an automaton so far. -/
structure Draft (κ : Type) [CustomTrigger κ] where
  -- the states added, which are all that may be referred to
  states : StateSet := ∅
  transitions : Transitions κ := ∅
  start : Option State := none
  error : Option State := none
  endNames : NameSet := ∅

namespace Draft

def empty : Draft κ where

instance : EmptyCollection (Draft κ) := ⟨empty⟩

instance : Inhabited (Draft κ) := ⟨empty⟩

def hasState (d : Draft κ) (name : String) : Bool := d.states.has name

def state? (d : Draft κ) (name : String) : Option State := d.states.find? name

/-- The state that was added under a name, which must be there. -/
def lookup (d : Draft κ) (name : String) : Except BuildError State :=
  match d.state? name with
  | some s => .ok s
  | none => .error (.unknownState name)

def addState (d : Draft κ) (s : State) : Except BuildError (Draft κ) :=
  if d.hasState s.name then .error (.duplicateState s.name)
  else .ok { d with states := d.states.insert s }

def addEnd (d : Draft κ) (name : String) : Except BuildError (Draft κ) := do
  let s ← d.lookup name
  return { d with endNames := d.endNames.insert s.name }

def setStart (d : Draft κ) (name : String) : Except BuildError (Draft κ) := do
  let s ← d.lookup name
  return { d with start := some s }

def setError (d : Draft κ) (name : String) : Except BuildError (Draft κ) := do
  let s ← d.lookup name
  return { d with error := some s }

/-- Adds targets to a source and a trigger. The source is looked up first and then the targets in
order, so of several unknown names the first of these is reported. -/
def addTransition (d : Draft κ) (source : String) (on : Trigger κ) (targets : List String) :
    Except BuildError (Draft κ) := do
  let s ← d.lookup source
  let ts ← targets.mapM d.lookup
  return { d with transitions := d.transitions.merge ⟨s, on, .collect ts⟩ }

/-- The automaton of the parts. A missing start state is reported before a missing error state. -/
def build (d : Draft κ) : Except BuildError (Automaton κ) :=
  match d.start, d.error with
  | none, _ => .error .missingStartState
  | some _, none => .error .missingErrorState
  | some start, some error =>
    .ok (.assemble start error d.endNames (.ofTransitions d.transitions))

end Draft

/-- An automaton written down in one piece: states to add, and names that refer to them. -/
structure Blueprint (κ : Type) where
  states : List State
  start : String
  error : String
  ends : List String := []
  -- the transitions: source, trigger and targets
  transitions : List (String × Trigger κ × List String) := []

/-- Drafts and builds the automaton: the states first, then ends, transitions, start and error.
The first part that is refused is reported. -/
def Blueprint.build (b : Blueprint κ) : Except BuildError (Automaton κ) := do
  let d : Draft κ ← b.states.foldlM Draft.addState ∅
  let d ← b.ends.foldlM Draft.addEnd d
  let d ← b.transitions.foldlM (fun d (source, on, targets) => d.addTransition source on targets) d
  let d ← d.setStart b.start
  let d ← d.setError b.error
  d.build

end HookedAutomata
