/-!
# The policy of a run

Three independent choices about steps that do not lead to exactly one place, and about when a run
is over.
-/

namespace HookedAutomata

/-- How a run takes undefined and branching steps, and whether end states end it. -/
structure Policy where
  -- a step that resolves to several states goes to all of them, otherwise to the error state
  allowBranching : Bool := true
  -- a state without a matching transition is kept; otherwise it gives way to the error state
  allowStaying : Bool := false
  -- the run is over once any end state has been seen
  stopAtEnd : Bool := false
  deriving DecidableEq

end HookedAutomata
