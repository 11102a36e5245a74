import HookedAutomata.Registry

/-!
# Checking records

A record may have been written by hand, or for another host. `AutomatonRecord.violations` lists all
that keeps it from being loaded, in the order in which the checks are made, one for each place that
is at fault:

1. names that are listed again;
2. an error state that is listed otherwise than it is given;
3. a start state that is unknown, then end states;
4. for each transition, a source, a tag and targets that are unknown;
5. callbacks of states that are unknown, those of the error state last.

The known names are those of the listed states and of the error state.
-/

namespace HookedAutomata

variable {κ : Type}

/-- The violation, unless the check holds. -/
def Violation.reportUnless (ok : Bool) (v : Violation) : List Violation := if ok then [] else [v]

namespace AutomatonRecord

/-- The names that stand in a list after the same name. -/
def repeated : List String → List String → List String
  | _, [] => []
  | before, n :: l =>
    if before.contains n then n :: repeated before l else repeated (n :: before) l

/-- The names of the listed states and of the error state. -/
def knownNames (r : AutomatonRecord) : List String := r.states.map (·.name) ++ [r.error.name]

def knows (r : AutomatonRecord) (name : String) : Bool := r.knownNames.contains name

def stateViolations (r : AutomatonRecord) : List Violation :=
  (repeated [] (r.states.map (·.name))).map .duplicateState

/-- Whether the error state is the same as the state that is listed first under its name. -/
def errorAgrees (r : AutomatonRecord) : Bool :=
  match r.states.find? fun s => s.name == r.error.name with
  | some s => s == r.error
  | none => true

def transitionViolations (r : AutomatonRecord) (g : TriggerRegistry κ) (t : TransitionRecord) :
    List Violation :=
  Violation.reportUnless (r.knows t.source) (.unknownSourceState t.source) ++
    Violation.reportUnless (g.contains t.trigger.tag) (.unknownTriggerTag t.trigger.tag) ++
    t.targets.flatMap fun name =>
      Violation.reportUnless (r.knows name) (.unknownTargetState t.source name)

def callbackViolations (g : CallbackRegistry) (s : StateRecord) : List Violation :=
  s.callbackNames.flatMap fun name =>
    Violation.reportUnless (g.contains name) (.unknownCallback s.name name)

/-- All faults of a record, in the order of the checks. -/
def violations (r : AutomatonRecord) (g : Registries κ) : List Violation :=
  r.stateViolations ++
    Violation.reportUnless r.errorAgrees (.conflictingErrorState r.error.name) ++
    Violation.reportUnless (r.knows r.start) (.unknownStartState r.start) ++
    (r.ends.flatMap fun name => Violation.reportUnless (r.knows name) (.unknownEndState name)) ++
    r.transitions.flatMap (r.transitionViolations g.triggers) ++
    (r.states ++ [r.error]).flatMap (callbackViolations g.callbacks)

end AutomatonRecord

end HookedAutomata
