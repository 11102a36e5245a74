import HookedAutomata.State
import HookedAutomata.Trigger.Basic

/-!
# Transitions

`Transitions κ` is a finite map from keys to sets of target states. A key is the name of a source
state and a trigger; triggers are compared as `κ` decides, so one key may have several spellings,
and the map keeps the spelling that came first.

Entries stand in the order in which they were made. No two of them have the same key, which is
part of the type (`Transitions.distinct`).

Main definitions:

* `Transitions.find?` and `Transitions.targets` look a key up;
* `Transitions.insert?` adds an entry for a new key, `Transitions.modify` changes the targets of a
  key, `Transitions.merge` adds targets to a key, new or not, and `Transitions.erase` drops a key;
* `Transitions.relabel` replaces instances of states by others of the same name.
-/

namespace HookedAutomata

variable {κ : Type} [CustomTrigger κ]

/-- A key with its targets. The source is held as an instance, of which the key is the name. -/
structure Entry (κ : Type) where
  source : State
  trigger : Trigger κ
  targets : StateSet

namespace Entry

/-- Whether an entry has the key of the given name and trigger. -/
def isFor (e : Entry κ) (name : String) (t : Trigger κ) : Bool :=
  e.source.name == name && e.trigger == t

/-- The states of an entry: the source, then the targets. -/
def states (e : Entry κ) : List State := e.source :: e.targets.toList

/-- The entry with every state replaced by one of the same name. -/
def relabel (f : State → State) (h : ∀ s, (f s).name = s.name) (e : Entry κ) : Entry κ :=
  { e with source := f e.source, targets := e.targets.relabel f h }

def withTargets (e : Entry κ) (f : StateSet → StateSet) : Entry κ :=
  { e with targets := f e.targets }

end Entry

/-- A finite map from a source name and a trigger to a set of targets. -/
structure Transitions (κ : Type) [CustomTrigger κ] where
  entries : List (Entry κ)
  -- no entry has the key of an earlier one
  distinct : entries.Pairwise fun a b => a.isFor b.source.name b.trigger = false

namespace Transitions

def empty : Transitions κ := ⟨[], .nil⟩

instance : EmptyCollection (Transitions κ) := ⟨empty⟩

instance : Inhabited (Transitions κ) := ⟨empty⟩

def size (m : Transitions κ) : Nat := m.entries.length

def isEmpty (m : Transitions κ) : Bool := m.entries.isEmpty

def find? (m : Transitions κ) (name : String) (t : Trigger κ) : Option (Entry κ) :=
  m.entries.find? fun e => e.isFor name t

/-- The targets for a key; none if there is no entry. -/
def targets (m : Transitions κ) (name : String) (t : Trigger κ) : StateSet :=
  match m.find? name t with
  | some e => e.targets
  | none => ∅

/-- The map with one more entry, if there is none for its key. -/
def insert? (m : Transitions κ) (e : Entry κ) : Option (Transitions κ) :=
  if h : m.find? e.source.name e.trigger = none then
    some ⟨m.entries ++ [e], List.pairwise_append.2 ⟨m.distinct, List.pairwise_singleton ..,
      fun a ha b hb => by
        have := List.find?_eq_none.1 h a ha
        rw [List.mem_singleton.1 hb]
        simpa using this⟩⟩
  else none

/-- The map with the targets for a key changed. The key keeps its spelling and its place. -/
def modify (m : Transitions κ) (name : String) (t : Trigger κ) (f : StateSet → StateSet) :
    Transitions κ :=
  ⟨m.entries.map fun e => if e.isFor name t then e.withTargets f else e,
    List.pairwise_map.2 (m.distinct.imp fun {a b} hab => by
      have ha : ∀ n g, (if a.isFor name t then a.withTargets f else a).isFor n g = a.isFor n g := by
        intro n g; split <;> rfl
      have hb : (if b.isFor name t then b.withTargets f else b).source = b.source := by
        split <;> rfl
      have hc : (if b.isFor name t then b.withTargets f else b).trigger = b.trigger := by
        split <;> rfl
      rw [ha, hb, hc]; exact hab)⟩

/-- The map with more targets for the key of `e`: added to those of its entry, or as a new one. -/
def merge (m : Transitions κ) (e : Entry κ) : Transitions κ :=
  (m.insert? e).getD (m.modify e.source.name e.trigger (· ∪ e.targets))

def erase (m : Transitions κ) (name : String) (t : Trigger κ) : Transitions κ :=
  ⟨m.entries.filter fun e => !e.isFor name t, m.distinct.filter _⟩

/-- The map with every state replaced by one of the same name. -/
def relabel (m : Transitions κ) (f : State → State) (h : ∀ s, (f s).name = s.name) :
    Transitions κ :=
  ⟨m.entries.map (Entry.relabel f h), List.pairwise_map.2 (m.distinct.imp fun {a b} hab => by
    simpa [Entry.isFor, Entry.relabel, h] using hab)⟩

/-- The states of all entries, in the order of the entries. -/
def states (m : Transitions κ) : List State := m.entries.flatMap Entry.states

def startingAt (m : Transitions κ) (name : String) : List (Entry κ) :=
  m.entries.filter fun e => e.source.name == name

def sources (m : Transitions κ) : StateSet := .collect (m.entries.map (·.source))

def allTargets (m : Transitions κ) : StateSet := .collect (m.entries.flatMap (·.targets.toList))

/-- The triggers of all entries, without repetition. -/
def triggers (m : Transitions κ) : List (Trigger κ) := Trigger.distinct (m.entries.map (·.trigger))

end Transitions

end HookedAutomata
