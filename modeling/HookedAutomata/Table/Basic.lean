import HookedAutomata.Transitions.Basic

/-!
# The transition table

A table holds transitions and sees to it that every state of a name is one and the same instance.
A state handed to the table is replaced by the instance the table knows under that name, if there
is one (`Table.canonical`). The owner of a table may *pin* an instance: from then on it is the
instance of its name, in all entries there are and in all to come (`Table.pin`).

Edits:

* `Table.add` makes an entry for a new key;
* `Table.update` replaces the targets of a key that has an entry;
* `Table.remove` drops an entry and gives its targets back.

Lookups:

* `Table.direct` gives the targets of a key as they stand, without following moves that consume
  nothing. That is done in `HookedAutomata.Table.Closure`.
-/

namespace HookedAutomata

variable {κ : Type} [CustomTrigger κ]

/-- Why an edit of a table is refused. -/
inductive TableError (κ : Type) where
  | duplicateTransition (state : String) (trigger : Trigger κ)
  | missingTransition (state : String) (trigger : Trigger κ)

def TableError.message : TableError κ → String
  | duplicateTransition state trigger =>
    "transition from '" ++ state ++ "' on " ++ trigger.display ++ " already exists"
  | missingTransition state trigger =>
    "no transition from '" ++ state ++ "' on " ++ trigger.display ++ " to update"

/-- Transitions over one instance per name. -/
structure Table (κ : Type) [CustomTrigger κ] where
  transitions : Transitions κ := ∅
  -- the instances that are fixed for their names, the oldest first
  pinned : List State := []

namespace Table

/-- A table with no entries and no pinned instances. -/
def empty : Table κ where

instance : EmptyCollection (Table κ) := ⟨empty⟩

instance : Inhabited (Table κ) := ⟨empty⟩

/-- A table of entries that share their instances already. -/
def ofTransitions (m : Transitions κ) : Table κ := { transitions := m }

/-- All instances the table knows: the pinned ones, then those of the entries. -/
def instances (t : Table κ) : List State := t.pinned ++ t.transitions.states

/-- The instance the table knows under the name of `s`, or `s` itself. -/
def canonical (t : Table κ) (s : State) : State :=
  (t.instances.find? fun known => known.name == s.name).getD s

/-- The canonical instance has the name that was looked up. -/
@[simp] theorem name_canonical (t : Table κ) (s : State) : (t.canonical s).name = s.name := by
  unfold canonical
  cases h : t.instances.find? fun known => known.name == s.name with
  | none => rfl
  | some a => simpa using List.find?_some h

/-- The canonical instance for an entry at `source`, which may not be in the table yet: a state of
the name of `source` is `source`. -/
def canonicalAt (t : Table κ) (source s : State) : State :=
  if s.name = source.name then source else t.canonical s

/-- The canonical instance for an entry has the name that was looked up. -/
@[simp] theorem name_canonicalAt (t : Table κ) (source s : State) :
    (t.canonicalAt source s).name = s.name := by
  unfold canonicalAt
  split
  · rename_i h; exact h.symm
  · exact t.name_canonical s

/-- The set with canonical instances for an entry at `source`. -/
def canonicalSet (t : Table κ) (source : State) (s : StateSet) : StateSet :=
  s.relabel (t.canonicalAt source) (t.name_canonicalAt source)

/-- Puts `s` in the place of a state of its name. -/
def standIn (s other : State) : State := if other.name = s.name then s else other

/-- The state put in has the name of the one it replaces. -/
@[simp] theorem name_standIn (s other : State) : (standIn s other).name = other.name := by
  unfold standIn
  split
  · rename_i h; exact h.symm
  · rfl

/-- Fixes `s` as the instance of its name. An instance pinned earlier for that name is pinned no
more, and instances of that name in the entries are replaced. -/
def pin (t : Table κ) (s : State) : Table κ where
  transitions := t.transitions.relabel (standIn s) (name_standIn s)
  pinned := (t.pinned.filter fun known => known.name != s.name) ++ [s]

/-- The targets of a key, without following moves that consume nothing. -/
def direct (t : Table κ) (name : String) (on : Trigger κ) : StateSet :=
  t.transitions.targets name on

def add (t : Table κ) (source : State) (on : Trigger κ) (targets : StateSet) :
    Except (TableError κ) (Table κ) :=
  match t.transitions.insert?
      ⟨t.canonical source, on, t.canonicalSet (t.canonical source) targets⟩ with
  | some m => .ok { t with transitions := m }
  | none => .error (.duplicateTransition source.name on)

/-- Replaces the targets of a key that has an entry. The entry keeps its source and the spelling
of its trigger. -/
def update (t : Table κ) (source : State) (on : Trigger κ) (targets : StateSet) :
    Except (TableError κ) (Table κ) :=
  match t.transitions.find? source.name on with
  | some e =>
    .ok { t with transitions :=
            t.transitions.modify source.name on fun _ => t.canonicalSet e.source targets }
  | none => .error (.missingTransition source.name on)

/-- Drops the entry of a key. Gives its targets back, if there was one. -/
def remove (t : Table κ) (name : String) (on : Trigger κ) : Option StateSet × Table κ :=
  ((t.transitions.find? name on).map (·.targets),
    { t with transitions := t.transitions.erase name on })

def size (t : Table κ) : Nat := t.transitions.size

def isEmpty (t : Table κ) : Bool := t.transitions.isEmpty

/-- The states that occur in entries; of two instances of one name a source stays. -/
def states (t : Table κ) : StateSet := t.transitions.sources ∪ t.transitions.allTargets

end Table

end HookedAutomata
