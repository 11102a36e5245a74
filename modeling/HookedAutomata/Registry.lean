import HookedAutomata.Callback
import HookedAutomata.Record.Error

/-!
# Registries

What records hold by name has to be found again when they are loaded. The host registers its
callbacks, by name, and its kinds of trigger, by tag, each with a function that rebuilds a trigger
from its payload. Texts and the trigger without input are registered from the beginning.

The name that stands for no callback counts as registered and is found as no callback
(`CallbackRegistry.resolve`).
-/

namespace HookedAutomata

variable {κ : Type} [CustomTrigger κ]

/-! ## Triggers -/

/-- How triggers of one tag are rebuilt from their payloads. -/
structure Rebuilder (κ : Type) where
  tag : String
  -- the trigger of a payload, or why there is none
  rebuild : String → Except String (Trigger κ)

instance : Named (Rebuilder κ) where
  name := Rebuilder.tag

/-- The kinds of trigger that can be rebuilt, by tag. -/
structure TriggerRegistry (κ : Type) where
  rebuilders : SortedSet (Rebuilder κ)

namespace TriggerRegistry

/-- The registry in which only the trigger without input and texts are registered. -/
def initial : TriggerRegistry κ where
  rebuilders := .ofList
    [⟨Trigger.epsilonTag, fun _ => .ok .epsilon⟩, ⟨Trigger.textTag, fun s => .ok (.text s)⟩]

instance : Inhabited (TriggerRegistry κ) := ⟨initial⟩

def contains (g : TriggerRegistry κ) (tag : String) : Bool := g.rebuilders.has tag

/-- Registers how triggers of a tag are rebuilt, if the tag is free. -/
def register (g : TriggerRegistry κ) (r : Rebuilder κ) : Except StoreError (TriggerRegistry κ) :=
  if g.contains r.tag then .error (.duplicateTrigger r.tag) else .ok ⟨g.rebuilders.insert r⟩

/-- Registers how custom triggers of a tag are rebuilt, if the tag is free. -/
def registerCustom (g : TriggerRegistry κ) (tag : String) (parse : String → Except String κ) :
    Except StoreError (TriggerRegistry κ) :=
  g.register ⟨tag, fun s => (parse s).map .custom⟩

def resolve (g : TriggerRegistry κ) (r : TriggerRecord) : Except StoreError (Trigger κ) :=
  match g.rebuilders.find? r.tag with
  | some b => (b.rebuild r.payload).mapError (.invalidTrigger r.tag)
  | none => .error (.unknownTrigger r.tag)

/-- The form that shows a registry to a programmer: the tags, in order. -/
def inspect (g : TriggerRegistry κ) : String :=
  "TriggerRegistry \x7b tags: [" ++ ", ".intercalate (g.rebuilders.names.map Text.quoted) ++
    "] \x7d"

end TriggerRegistry

/-! ## Callbacks -/

instance : Named Callback where
  name := Callback.name

/-- The callbacks that can be found by name. -/
structure CallbackRegistry where
  callbacks : SortedSet Callback := ∅

namespace CallbackRegistry

def empty : CallbackRegistry where

instance : Inhabited CallbackRegistry := ⟨empty⟩

/-- Registers a callback, if its name is free. -/
def register (g : CallbackRegistry) (c : Callback) : Except StoreError CallbackRegistry :=
  if g.callbacks.has c.name then .error (.duplicateCallback c.name)
  else .ok ⟨g.callbacks.insert c⟩

/-- Whether a name is registered. The name that stands for no callback counts as such. -/
def contains (g : CallbackRegistry) (name : String) : Bool :=
  name == noCallback || g.callbacks.has name

/-- The callback of a name, or no callback for the name that stands for none. -/
def resolve (g : CallbackRegistry) (name : String) : Except StoreError (Option Callback) :=
  if name = noCallback then .ok none
  else
    match g.callbacks.find? name with
    | some c => .ok (some c)
    | none => .error (.unknownCallback name)

def resolveOptional (g : CallbackRegistry) : Option String → Except StoreError (Option Callback)
  | some name => g.resolve name
  | none => .ok none

end CallbackRegistry

/-- What a host has registered. -/
structure Registries (κ : Type) where
  triggers : TriggerRegistry κ
  callbacks : CallbackRegistry

def Registries.initial : Registries κ := ⟨.initial, .empty⟩

instance : Inhabited (Registries κ) := ⟨.initial⟩

end HookedAutomata
