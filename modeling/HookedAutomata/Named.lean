/-!
# Named things

States, callbacks and trigger kinds are told apart by name. `Named` is the class of types whose
values carry a name; names are ordered by code point, which is the order of `String`.

A name names itself (`instNamedString`), so a set of names is a set of named things like any other.
-/

namespace HookedAutomata

/-- Types whose values carry a name. -/
class Named (α : Type) where
  name : α → String

/-- A name names itself. -/
instance instNamedString : Named String where
  name s := s

@[simp] theorem Named.name_string (s : String) : Named.name s = s := rfl

end HookedAutomata
