import HookedAutomata.State
import HookedAutomata.Callback

/-!
# The wiring of hooks

A `Board` is all that running a hook can see and change: which hooks each instance of a state has,
which states the host has given handles, the log that callbacks write, and what the host's code
keeps in mind. A `Wiring` is a board together with that code, of which nothing is assumed. The code
stays the same whatever is run, and the rest may become anything.

Main definitions:

* `Wiring.create` makes a fresh instance of a state;
* `Wiring.hook` reads a hook and `Wiring.setHook` replaces one;
* `Wiring.run` runs a callback, and `Wiring.fire` runs what is in a slot at that moment.

A callback is read from its slot before it runs, so it may replace any hook while it runs, the one
it was read from included.
-/

namespace HookedAutomata

/-- What running a hook can see and change. -/
structure Board where
  -- how many instances have been made; the next one gets this number
  created : Nat := 0
  -- the hooks of instances by number. An instance that is not listed has none
  hooks : List (Nat × Hooks) := []
  -- the states that the host has given handles, the latest first
  handles : List (String × State) := []
  log : List String := []
  -- what the host's code keeps in mind from one run of a hook to the next
  memory : String := ""

/-- A board, and the code of the host that callbacks call. -/
structure Wiring extends Board where
  -- what each piece of code makes of the board. Unless a host has code, no piece does anything
  code : Nat → Board → Board := fun _ board => board

namespace Wiring

def hooksOf (w : Wiring) (s : State) : Hooks := (w.hooks.lookup s.instanceId).getD {}

def hook (w : Wiring) (s : State) (slot : Slot) : Option Callback := (w.hooksOf s).get slot

/-- The name of the callback in a slot of an instance. -/
def hookName (w : Wiring) (s : State) (slot : Slot) : Option String := (w.hook s slot).map (·.name)

/-- The wiring in which an instance has the given hooks. -/
def setHooks (w : Wiring) (s : State) (h : Hooks) : Wiring :=
  { w with hooks := (s.instanceId, h) :: w.hooks.filter fun p => p.1 != s.instanceId }

/-- The wiring in which one hook of an instance is replaced. -/
def setHook (w : Wiring) (s : State) (slot : Slot) (hook : Option Callback) : Wiring :=
  w.setHooks s ((w.hooksOf s).set hook slot)

/-- A fresh instance of the given name with the given hooks. -/
def create (w : Wiring) (name : String) (h : Hooks) : State × Wiring :=
  let s : State := ⟨name, w.created⟩
  (s, { w.setHooks s h with created := w.created + 1 })

def handle? (w : Wiring) (handle : String) : Option State := w.handles.lookup handle

/-- The wiring in which a handle denotes the given state. -/
def setHandle (w : Wiring) (handle : String) (s : State) : Wiring :=
  { w with handles := (handle, s) :: w.handles }

/-- Does one thing that a callback does. A handle is looked up now; one that denotes no state is
passed over. -/
def perform (w : Wiring) : Effect Callback → Wiring
  | .emit label => { w with log := w.log ++ [label] }
  | .rewire handle slot hook =>
    match w.handle? handle with
    | some s => w.setHook s slot hook
    | none => w
  | .call piece => { w with toBoard := w.code piece w.toBoard }

/-- Runs a callback: does all its effects in order. -/
def run (w : Wiring) (c : Callback) : Wiring := c.effects.foldl perform w

/-- Runs the callback that is in a slot now, if any. -/
def fire (w : Wiring) (s : State) (slot : Slot) : Wiring :=
  match w.hook s slot with
  | some c => w.run c
  | none => w

def clearLog (w : Wiring) : Wiring := { w with log := [] }

theorem lookup_filter_ne {α : Type} (l : List (Nat × α)) {i j : Nat} (h : j ≠ i) :
    (l.filter fun p => p.1 != i).lookup j = l.lookup j := by
  induction l with
  | nil => rfl
  | cons p l ih =>
    obtain ⟨k, a⟩ := p
    by_cases hk : k = i
    · subst hk
      have hj : (j == k) = false := by simpa using h
      simp [List.lookup_cons, hj, ih]
    · simp [hk, List.lookup_cons, ih]

/-- Setting the hooks of an instance changes the hooks of that instance only. -/
theorem hooksOf_setHooks (w : Wiring) (s t : State) (h : Hooks) :
    (w.setHooks s h).hooksOf t = if t.instanceId = s.instanceId then h else w.hooksOf t := by
  by_cases ht : t.instanceId = s.instanceId
  · simp [hooksOf, setHooks, ht]
  · have hb : (t.instanceId == s.instanceId) = false := by simpa using ht
    simp [hooksOf, setHooks, List.lookup_cons, hb, ht, lookup_filter_ne _ ht]

/-- Replacing a hook changes that slot of that instance only. -/
theorem hook_setHook (w : Wiring) (s t : State) (slot other : Slot) (hook : Option Callback) :
    (w.setHook s slot hook).hook t other =
      if t.instanceId = s.instanceId ∧ other = slot then hook else w.hook t other := by
  unfold setHook Wiring.hook
  rw [hooksOf_setHooks]
  by_cases ht : t.instanceId = s.instanceId
  · have hs : w.hooksOf t = w.hooksOf s := by simp [hooksOf, ht]
    simp [ht, hs]
  · simp [ht]

end Wiring

namespace State

/-- The form that shows a state to a programmer: its name and the names of its callbacks. -/
def inspect (w : Wiring) (s : State) : String :=
  "State \x7b name: " ++ Text.quoted s.name ++ ", on_entry: " ++ hook .entry ++ ", on_exit: " ++
    hook .exit ++ ", on_stay: " ++ hook .stay ++ " \x7d"
where
  hook (slot : Slot) : String :=
    match w.hookName s slot with
    | some name => "Some(" ++ Text.quoted name ++ ")"
    | none => "None"

end State

end HookedAutomata
