import HookedAutomata.Draft
import HookedAutomata.Policy
import HookedAutomata.Sightings
import HookedAutomata.Uuid
import HookedAutomata.Wiring

/-!
# Runs

A run drives an automaton one trigger at a time. It is in a set of current states at once; each of
them takes a step on its own, and what they lead to is put together.

* `Run.start` enters the start state and whatever closure adds to it.
* `Run.update` takes one step. Each current state, in increasing order of names, resolves its
  targets, fires the entry hook of each target, and then gives its contribution to the next
  current states (`Run.contribute`): the targets; itself, if it has no targets and may stay; or the
  error state.
* `Run.updateAll` takes several steps, and `Run.reset` leaves all states without firing hooks.

Hooks run between these actions and may rewire hooks, so each action yields the wiring that the
next one begins with. What a run does apart from hooks does not depend on the wiring.
-/

namespace HookedAutomata

variable {κ : Type} [CustomTrigger κ]

/-- A run of an automaton. -/
structure Run (κ : Type) [CustomTrigger κ] where
  id : Uuid
  automaton : Automaton κ
  policy : Policy
  -- the states the run is in. There are none before the start and after a reset
  current : StateSet := ∅
  history : Sightings := ∅

/-- Why a step is refused. -/
inductive RunError where
  | notStarted
  deriving DecidableEq

def RunError.message : RunError → String
  | notStarted => "Execution has no current states. Call .start() before .update()"

/-- What an action on a run gives: a result, the run afterwards and the wiring afterwards. -/
structure Outcome (κ : Type) [CustomTrigger κ] (α : Type) where
  result : α
  run : Run κ
  wiring : Wiring

/-- A step half done: the wiring by now, the states reached and the end states seen. -/
structure Progress where
  wiring : Wiring
  -- the next current states, of the sources done so far
  next : StateSet := ∅
  seen : StateSet := ∅

namespace Run

def isStarted (r : Run κ) : Bool := !r.current.isEmpty

/-- Whether the run is over: it is in the error state alone, or end states end it and one has been
seen, wherever the run is now. -/
def atEnd (r : Run κ) : Bool :=
  (r.current.size == 1 && r.current.has r.automaton.error.name) ||
    (r.policy.stopAtEnd && !r.history.isEmpty)

/-- Enters a state: fires its entry hook, and notes it if it is an end state. -/
def enter (a : Automaton κ) (p : Progress) (s : State) : Progress :=
  { p with
    wiring := p.wiring.fire s .entry
    seen := if a.isEnd s.name then p.seen.insert s else p.seen }

/-- Enters the start state and its closure. Answers whether the run can go on. -/
def start (r : Run κ) (w : Wiring) : Outcome κ Bool :=
  let current := r.automaton.table.closure (.singleton r.automaton.start)
  let p := current.toList.foldl (enter r.automaton) ⟨w, ∅, ∅⟩
  let r := { r with current := current, history := r.history.record p.seen }
  ⟨!r.atEnd, r, p.wiring⟩

/-- Leaves `s` for the error state: fires the exit hook of the one and the entry hook of the other.
-/
def fail (r : Run κ) (w : Wiring) (s : State) : StateSet × Wiring :=
  (.singleton r.automaton.error, (w.fire s .exit).fire r.automaton.error .entry)

/-- What the current state `s` contributes to the next current states when its step leads to
`targets`, whose entry hooks have been fired. -/
def contribute (r : Run κ) (w : Wiring) (s : State) (targets : StateSet) : StateSet × Wiring :=
  if targets.isEmpty then
    if r.policy.allowStaying then (.singleton s, w.fire s .stay) else r.fail w s
  else if targets.size == 1 || r.policy.allowBranching then (targets, w.fire s .exit)
  else r.fail w s

/-- Takes the step of one current state: enters its targets, and adds its contribution. -/
def advance (r : Run κ) (on : Trigger κ) (p : Progress) (s : State) : Progress :=
  let targets := r.automaton.table.resolve s.name on
  let p := targets.toList.foldl (enter r.automaton) p
  let (next, w) := r.contribute p.wiring s targets
  { p with wiring := w, next := p.next ∪ next }

/-- Takes one step with every current state. Answers whether the run can go on. A run that is in no
state is refused, and nothing changes. -/
def update (r : Run κ) (w : Wiring) (on : Trigger κ) : Outcome κ (Except RunError Bool) :=
  if r.current.isEmpty then ⟨.error .notStarted, r, w⟩
  else
    let p := r.current.toList.foldl (r.advance on) ⟨w, ∅, ∅⟩
    let r := { r with current := p.next, history := r.history.record p.seen }
    ⟨.ok !r.atEnd, r, p.wiring⟩

/-- Takes one step for each trigger. Answers the answers of the steps, or the first error. -/
def updateAll (r : Run κ) (w : Wiring) : List (Trigger κ) → Outcome κ (Except RunError (List Bool))
  | [] => ⟨.ok [], r, w⟩
  | on :: rest =>
    let first := r.update w on
    match first.result with
    | .error e => ⟨.error e, first.run, first.wiring⟩
    | .ok running =>
      let others := first.run.updateAll first.wiring rest
      ⟨others.result.map (running :: ·), others.run, others.wiring⟩

/-- Leaves all states. The history and the policy stay. -/
def reset (r : Run κ) : Run κ := { r with current := ∅ }

end Run

/-- The parts of a run before it is made. -/
structure RunDraft (κ : Type) [CustomTrigger κ] where
  automaton : Option (Automaton κ) := none
  policy : Policy := {}

def RunDraft.build (d : RunDraft κ) (id : Uuid) : Except BuildError (Run κ) :=
  match d.automaton with
  | some a => .ok ⟨id, a, d.policy, ∅, ∅⟩
  | none => .error .missingAutomaton

end HookedAutomata
