import HookedAutomata.Named

/-!
# Sets ordered by name

`SortedSet α` holds values of a named type, at most one per name, in increasing order of their
names. The order is part of the type (`SortedSet.sorted`), so whatever walks a set does so in the
same order every time: hooks fire, and lists are written, by increasing name.

A set keeps the value it already has. Inserting a value whose name is taken changes nothing
(`SortedSet.insert`), so of several values of one name the first stays. A set that is made of a list
in one go keeps the last instead (`SortedSet.collect`).

Main definitions:

* `SortedSet.insert`, `SortedSet.union`, `SortedSet.ofList` add values, first come first kept;
* `SortedSet.collect` makes a set of a list, last come last kept;
* `SortedSet.has`, `SortedSet.find?` look a name up;
* `SortedSet.relabel` replaces each value by one of the same name.
-/

namespace HookedAutomata

/-- A finite set of named values, at most one per name, in increasing order of names. -/
structure SortedSet (α : Type) [Named α] where
  toList : List α
  sorted : toList.Pairwise fun a b => Named.name a < Named.name b

namespace SortedSet

variable {α : Type} [Named α]

/-- The list that holds `a` at its place in `l`, or `l` itself where the name is taken. -/
def place (a : α) : List α → List α
  | [] => [a]
  | b :: l =>
    if Named.name a < Named.name b then a :: b :: l
    else if Named.name b < Named.name a then b :: place a l
    else b :: l

theorem eq_or_mem_of_mem_place {a x : α} {l : List α} (h : x ∈ place a l) : x = a ∨ x ∈ l := by
  induction l with
  | nil => simp [place] at h; exact .inl h
  | cons b l ih =>
    unfold place at h
    split at h
    · simpa using h
    · split at h
      · rcases List.mem_cons.1 h with rfl | h
        · exact .inr List.mem_cons_self
        · exact (ih h).imp_right (List.mem_cons_of_mem b)
      · exact .inr h

theorem pairwise_place (a : α) {l : List α}
    (h : l.Pairwise fun a b => Named.name a < Named.name b) :
    (place a l).Pairwise fun a b => Named.name a < Named.name b := by
  induction l with
  | nil => simp [place]
  | cons b l ih =>
    have hb := List.pairwise_cons.1 h
    unfold place
    split
    · rename_i hab
      refine List.pairwise_cons.2 ⟨fun x hx => ?_, h⟩
      rcases List.mem_cons.1 hx with rfl | hx
      · exact hab
      · exact String.lt_trans hab (hb.1 x hx)
    · split
      · rename_i hba
        refine List.pairwise_cons.2 ⟨fun x hx => ?_, ih hb.2⟩
        rcases eq_or_mem_of_mem_place hx with rfl | hx
        · exact hba
        · exact hb.1 x hx
      · exact h

def empty : SortedSet α := ⟨[], .nil⟩

instance : EmptyCollection (SortedSet α) := ⟨empty⟩

instance : Inhabited (SortedSet α) := ⟨empty⟩

def singleton (a : α) : SortedSet α := ⟨[a], List.pairwise_singleton ..⟩

/-- The set with `a` in it, unless a member of that name is there already: that member stays. -/
def insert (s : SortedSet α) (a : α) : SortedSet α := ⟨place a s.toList, pairwise_place a s.sorted⟩

/-- The members of both sets; of two members of one name the one of `s` stays. -/
def union (s t : SortedSet α) : SortedSet α := t.toList.foldl insert s

instance : Union (SortedSet α) := ⟨union⟩

/-- The set of the listed values, inserted one by one; of several values of one name the first
stays. -/
def ofList (l : List α) : SortedSet α := l.foldl insert ∅

/-- The set of the listed values, made in one go; of several values of one name the last stays. -/
def collect (l : List α) : SortedSet α := ofList l.reverse

/-- The names of the members, increasing. -/
def names (s : SortedSet α) : List String := s.toList.map Named.name

def size (s : SortedSet α) : Nat := s.toList.length

def isEmpty (s : SortedSet α) : Bool := s.toList.isEmpty

def find? (s : SortedSet α) (name : String) : Option α :=
  s.toList.find? fun a => Named.name a == name

def has (s : SortedSet α) (name : String) : Bool := (s.find? name).isSome

instance : Membership α (SortedSet α) := ⟨fun s a => a ∈ s.toList⟩

def filter (p : α → Bool) (s : SortedSet α) : SortedSet α := ⟨s.toList.filter p, s.sorted.filter p⟩

def relabel (f : α → α) (h : ∀ a, Named.name (f a) = Named.name a) (s : SortedSet α) :
    SortedSet α :=
  ⟨s.toList.map f, List.pairwise_map.2 (s.sorted.imp fun hab => by rwa [h, h])⟩

/-- Sets with the same members are equal. -/
@[ext] theorem ext {s t : SortedSet α} (h : s.toList = t.toList) : s = t := by
  cases s; cases t; simpa using h

instance [DecidableEq α] : DecidableEq (SortedSet α) := fun s t =>
  decidable_of_iff (s.toList = t.toList) ⟨ext, fun h => h ▸ rfl⟩

end SortedSet

abbrev NameSet := SortedSet String

end HookedAutomata
