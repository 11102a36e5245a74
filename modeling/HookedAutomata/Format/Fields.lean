import HookedAutomata.Format.Basic

/-!
# Saved forms of records

A record is described once, by its fields in order (`Fields`): each has a key, the format of its
values and, if it may be left out of a JSON text, the value it then has. Both saved forms follow
from the description (`Format.record`).

In JSON a record is written as an object with the fields in order, and read from an object with the
fields in any order, or from a list of the values in order.

* A field that comes a second time is unfit at its second key.
* A key that belongs to no field is passed over with its value.
* A field that is missing is found out at the end of the object.
* Of a list, values may be missing at the end if their fields may be left out. Values beyond the
  last field are malformed.

As bytes, a record is its fields one after the other.
-/

namespace HookedAutomata

/-- The fields of a record, in order. The values of all of them make up an `α`, and a `σ` holds the
values of those that have been read. -/
inductive Fields : (α σ : Type) → Type 1 where
  | nil : Fields Unit Unit
  -- a field, the value it has where it is left out, if it may be, and the fields after it
  | cons {α β σ : Type} (key : String) (format : Format α) (absent : Option α)
    (rest : Fields β σ) : Fields (α × β) (Option α × σ)

namespace Fields

variable {α σ : Type}

def unread : {α σ : Type} → Fields α σ → σ
  | _, _, nil => ()
  | _, _, cons _ _ _ rest => (none, rest.unread)

/-- Reads the value of a key, if there is a field of that key. -/
def fill? : {α σ : Type} → Fields α σ → String → Reading → σ → Option (Except Fault σ)
  | _, _, nil, _, _, _ => none
  | _, _, cons key format _ rest, k, v, (slot, slots) =>
    if k = key then
      match slot with
      | some _ => some (.error .unfit)
      | none => some ((format.ofReading v).map fun a => (some a, slots))
    else (rest.fill? k v slots).map fun r => r.map fun slots => (slot, slots)

/-- The value of a field: what was read, or what it has where it is left out. -/
def orAbsent {α : Type} (slot absent : Option α) : Except Fault α :=
  match slot.or absent with
  | some a => .ok a
  | none => .error .unfit

/-- The values of all fields at the end of an object. -/
def close : {α σ : Type} → Fields α σ → σ → Except Fault α
  | _, _, nil, _ => .ok ()
  | _, _, cons _ _ absent rest, (slot, slots) => do
    let a ← orAbsent slot absent
    let b ← rest.close slots
    return (a, b)

def readMember (f : Fields α σ) (slots : σ) (m : Option String × Reading) : Except Fault σ :=
  match m.1 with
  | none => .error .malformed
  | some key =>
    match f.fill? key m.2 slots with
    | some r => r
    | none => do
      Fault.raise m.2.skipFault
      return slots

def readMembers (f : Fields α σ) (members : List (Option String × Reading)) (stop : Option Fault) :
    Except Fault α := do
  let slots ← members.foldlM f.readMember f.unread
  Fault.raise stop
  f.close slots

def readItems : {α σ : Type} → Fields α σ → List Reading → Option Fault → Except Fault α
  | _, _, nil, [], stop => Fault.raise stop
  | _, _, nil, _ :: _, _ => .error .malformed
  | _, _, cons _ _ absent rest, [], stop => do
    Fault.raise stop
    let a ← orAbsent none absent
    let b ← rest.readItems [] stop
    return (a, b)
  | _, _, cons _ format _ rest, v :: items, stop => do
    let a ← format.ofReading v
    let b ← rest.readItems items stop
    return (a, b)

def toMembers : {α σ : Type} → Fields α σ → α → List (String × Json)
  | _, _, nil, _ => []
  | _, _, cons key format _ rest, (a, b) => (key, format.toJson a) :: rest.toMembers b

def toBytes : {α σ : Type} → Fields α σ → α → List UInt8
  | _, _, nil, _ => []
  | _, _, cons _ format _ rest, (a, b) => format.toBytes a ++ rest.toBytes b

def ofBytes : {α σ : Type} → Fields α σ → ByteReader α
  | _, _, nil, l => .ok ((), l)
  | _, _, cons _ format _ rest, l => do
    let (a, l) ← format.ofBytes l
    let (b, l) ← rest.ofBytes l
    return ((a, b), l)

end Fields

/-- The format of a record that is made up of the values of fields. -/
def Format.record {α σ ρ : Type} (f : Fields α σ) (make : α → ρ) (values : ρ → α) : Format ρ where
  toJson r := .object (f.toMembers (values r))
  ofReading
    | .object members stop => (f.readMembers members stop).map make
    | .list items stop => (f.readItems items stop).map make
    | v => .error v.mismatch
  toBytes r := f.toBytes (values r)
  ofBytes l := do
    let (a, rest) ← f.ofBytes l
    return (make a, rest)

end HookedAutomata
