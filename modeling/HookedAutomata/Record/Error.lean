import HookedAutomata.Draft
import HookedAutomata.Format.Bytes
import HookedAutomata.Json.Reading
import HookedAutomata.Record.Basic

/-!
# What can be wrong with records

`Violation` lists the faults that the record of an automaton may have, and `StoreError` all that can
go wrong with registries, records and their saved forms.
-/

namespace HookedAutomata

/-- A fault in the record of an automaton. -/
inductive Violation where
  | duplicateState (name : String)
  -- the error state is listed too, and differently
  | conflictingErrorState (name : String)
  | unknownStartState (name : String)
  | unknownEndState (name : String)
  | unknownSourceState (name : String)
  | unknownTargetState (source name : String)
  | unknownTriggerTag (tag : String)
  | unknownCallback (state name : String)
  deriving DecidableEq

def Violation.message : Violation → String
  | duplicateState name => "State '" ++ name ++ "' is listed more than once"
  | conflictingErrorState name =>
    "Error state '" ++ name ++ "' differs from the state listed under the same name"
  | unknownStartState name => "Start state '" ++ name ++ "' is not a known state"
  | unknownEndState name => "End state '" ++ name ++ "' is not a known state"
  | unknownSourceState name => "Transition source '" ++ name ++ "' is not a known state"
  | unknownTargetState source name =>
    "Transition from '" ++ source ++ "' targets unknown state '" ++ name ++ "'"
  | unknownTriggerTag tag => "Trigger tag '" ++ tag ++ "' has no registered reconstructor"
  | unknownCallback state name =>
    "State '" ++ state ++ "' refers to unregistered callback '" ++ name ++ "'"

/-- Why something is not registered, saved or loaded. -/
inductive StoreError where
  | invalidRecord (violations : List Violation)
  | unknownTrigger (tag : String)
  -- the payload of a trigger is refused, for the reason given
  | invalidTrigger (tag reason : String)
  | unknownCallback (name : String)
  -- the record of a run refers to a state that its automaton does not have
  | unknownState (name : String)
  | duplicateTrigger (tag : String)
  | duplicateCallback (name : String)
  | unsupportedVersion (found : UInt32)
  | build (e : BuildError)
  | json (f : Fault)
  | binary (e : BinaryError)
  deriving DecidableEq

/-- The wording of each cause; for saved forms that cannot be read, its name. -/
def StoreError.message : StoreError → String
  | invalidRecord violations => "Invalid record: " ++ toString violations.length ++ " violation(s)"
  | unknownTrigger tag => "No trigger reconstructor registered for tag '" ++ tag ++ "'"
  | invalidTrigger tag reason => "Invalid payload for trigger '" ++ tag ++ "': " ++ reason
  | unknownCallback name => "No callback registered under '" ++ name ++ "'"
  | unknownState name => "Unknown state '" ++ name ++ "' in saved execution"
  | duplicateTrigger tag => "Trigger tag '" ++ tag ++ "' is already registered"
  | duplicateCallback name => "Callback '" ++ name ++ "' is already registered"
  | unsupportedVersion found =>
    "Unsupported record version " ++ toString found.toNat ++ ", supported: " ++
      toString recordVersion.toNat
  | build e => "Rebuilding the automaton failed: " ++ e.message
  | json f => f.category
  | binary e => e.name

end HookedAutomata
