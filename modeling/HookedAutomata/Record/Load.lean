import HookedAutomata.Record.Check
import HookedAutomata.Record.Format
import HookedAutomata.Record.Save

/-!
# Loading automata and runs

A record is checked as a whole before anything is made of it (`AutomatonRecord.load`): if there are
faults, all of them are reported. Then the automaton is drafted from the record, part by part, so it
is like any other that was drafted. Its states are fresh instances, with the callbacks that the
registries have.

A run is loaded with its automaton (`RunRecord.load`). Its version is looked at first. Its current
states and its history refer to states of the automaton that was loaded. No hooks run.
-/

namespace HookedAutomata

variable {κ : Type} [CustomTrigger κ]

/-- What drafting yields, a refusal being one of the store. -/
def StoreError.ofBuild {α : Type} (r : Except BuildError α) : Except StoreError α :=
  r.mapError .build

def StateRecord.load (r : StateRecord) (g : CallbackRegistry) (w : Wiring) :
    Except StoreError (State × Wiring) := do
  let entry ← g.resolve r.entry
  let exit ← g.resolveOptional r.exit
  let stay ← g.resolveOptional r.stay
  return w.create r.name ⟨entry, exit, stay⟩

/-- The draft with a fresh instance of a recorded state. -/
def Draft.addRecorded (g : CallbackRegistry) (p : Draft κ × Wiring) (r : StateRecord) :
    Except StoreError (Draft κ × Wiring) := do
  let (s, w) ← r.load g p.2
  let d ← StoreError.ofBuild (p.1.addState s)
  return (d, w)

/-- The draft with a recorded transition. Its trigger is rebuilt first. -/
def Draft.addRecordedTransition (g : TriggerRegistry κ) (d : Draft κ) (r : TransitionRecord) :
    Except StoreError (Draft κ) := do
  let on ← g.resolve r.trigger
  StoreError.ofBuild (d.addTransition r.source on r.targets)

/-- The automaton of a record, and the wiring with its states. -/
def AutomatonRecord.load (r : AutomatonRecord) (g : Registries κ) (w : Wiring) :
    Except StoreError (Automaton κ × Wiring) := do
  if !(r.violations g).isEmpty then throw (.invalidRecord (r.violations g))
  let (d, w) ← r.states.foldlM (Draft.addRecorded g.callbacks) ((∅ : Draft κ), w)
  let (d, w) ← if d.hasState r.error.name then pure (d, w)
    else Draft.addRecorded g.callbacks (d, w) r.error
  let d ← StoreError.ofBuild (r.ends.foldlM Draft.addEnd d)
  let d ← r.transitions.foldlM (Draft.addRecordedTransition g.triggers) d
  let a ← StoreError.ofBuild do (← (← d.setStart r.start).setError r.error.name).build
  return (a, w)

/-- The state of an automaton that a record of a run refers to. -/
def Automaton.resolveName (a : Automaton κ) (name : String) : Except StoreError State :=
  match a.state? name with
  | some s => .ok s
  | none => .error (.unknownState name)

/-- The states of an automaton that a record of a run refers to. -/
def Automaton.resolveNames (a : Automaton κ) (names : List String) :
    Except StoreError StateSet :=
  (names.mapM a.resolveName).map .collect

/-- The run of a record, and the wiring with its states. -/
def RunRecord.load (r : RunRecord) (g : Registries κ) (w : Wiring) :
    Except StoreError (Run κ × Wiring) := do
  if r.version ≠ recordVersion then throw (.unsupportedVersion r.version)
  let (a, w) ← r.automaton.load g w
  let current ← a.resolveNames r.current
  let snapshots ← r.history.mapM a.resolveNames
  return (⟨r.id, a, r.policy, current, snapshots.foldl Sightings.record ∅⟩, w)

/-! ## Saved forms -/

def Automaton.toText (w : Wiring) (a : Automaton κ) : String :=
  AutomatonRecord.format.toText (a.toRecord w)

def Automaton.ofText (s : String) (g : Registries κ) (w : Wiring) :
    Except StoreError (Automaton κ × Wiring) := do
  (← (AutomatonRecord.format.ofText s).mapError .json).load g w

def Run.toText (w : Wiring) (savedAt : Instant) (r : Run κ) : String :=
  RunRecord.format.toText (r.toRecord w savedAt)

def Run.ofText (s : String) (g : Registries κ) (w : Wiring) :
    Except StoreError (Run κ × Wiring) := do
  (← (RunRecord.format.ofText s).mapError .json).load g w

def Run.toBytes (w : Wiring) (savedAt : Instant) (r : Run κ) : List UInt8 :=
  RunRecord.format.toBytes (r.toRecord w savedAt)

/-- The run of bytes. What follows it does not matter. -/
def Run.ofBytes (l : List UInt8) (g : Registries κ) (w : Wiring) :
    Except StoreError (Run κ × Wiring) := do
  (← (RunRecord.format.decode l).mapError .binary).load g w

end HookedAutomata
