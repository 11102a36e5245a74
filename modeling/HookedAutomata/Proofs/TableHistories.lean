import HookedAutomata.Proofs.Sharing
import HookedAutomata.Trigger.Symbol

/-!
# What tables keep

A table comes about by edits, and now and then an automaton is assembled from it, which pins the
start and the error state in it (`Table.Arises`). However the states are named by the host, by
instances that are known or by fresh ones, the table keeps one instance for each name
(`Table.Arises.oneInstance`).

Assembling replaces instances and nothing else: the entries and the names of their targets stay. The
start state is pinned before the error state, so of two instances of one name the start state is the
one that is replaced. Unless that happens, both stay the only instances of their names through all
edits (`Automaton.eq_start_and_eq_error`).

The main statement is `Table.Arises.one_instance`.
-/

namespace HookedAutomata

variable {κ : Type} [CustomTrigger κ]

/-! ## Automata that are assembled -/

namespace Automaton

variable (start error : State) (ends : NameSet) (t : Table κ)

theorem isSome_find?_assemble (n : String) (on : Trigger κ) :
    ((assemble start error ends t).table.transitions.find? n on).isSome =
      (t.transitions.find? n on).isSome := by
  show (((t.pin start).pin error).transitions.find? n on).isSome = _
  rw [Table.isSome_find?_pin, Table.isSome_find?_pin]

theorem names_direct_assemble (n : String) (on : Trigger κ) :
    ((assemble start error ends t).table.direct n on).names = (t.direct n on).names := by
  show (((t.pin start).pin error).direct n on).names = _
  rw [Table.names_direct_pin, Table.names_direct_pin]

variable {start error}

/-- After any edits the start and the error state are the only instances of their names. -/
theorem eq_start_and_eq_error (h : start.name ≠ error.name ∨ start = error)
    (l : List (Table.Edit κ)) {x : State}
    (hx : x ∈ ((assemble start error ends t).edited l).table.instances) :
    (x.name = start.name → x = start) ∧ (x.name = error.name → x = error) := by
  have hstart : OneInstance ((t.pin start).pin error).instances start.name :=
    Table.oneInstance_pin_of (Table.oneInstance_pin t start) error
  have herror : OneInstance ((t.pin start).pin error).instances error.name :=
    Table.oneInstance_pin (t.pin start) error
  exact ⟨Table.eq_of_mem_pinned (Table.mem_pinned_pin_pin t h) hstart hx,
    Table.eq_of_mem_pinned (Table.mem_pinned_pin (t.pin start) error) herror hx⟩

end Automaton

/-! ## Tables that arise -/

namespace Table

/-- The tables that a host comes by: an empty one and that of a drafted automaton, and from any of
these what an edit makes of it, and what it becomes when an automaton is assembled from it. -/
inductive Arises : Table κ → Prop where
  | empty : Arises ∅
  | drafted {a : Automaton κ} (h : a.Drafted) : Arises a.table
  | edit {t : Table κ} (h : Arises t) (c : Edit κ) : Arises (t.apply c)
  | assemble {t : Table κ} (h : Arises t) (start error : State) (ends : NameSet) :
      Arises (Automaton.assemble start error ends t).table

theorem Arises.oneInstance {t : Table κ} (h : t.Arises) (n : String) :
    OneInstance t.instances n := by
  induction h with
  | empty => exact fun x hx => absurd hx List.not_mem_nil
  | drafted h => exact h.shared.one n
  | edit _ c ih => exact oneInstance_apply ih c
  | assemble _ start error _ ih => exact oneInstance_pin_of (oneInstance_pin_of ih start) error

/-- **A table has one instance of each name.** This holds of every table that arises, over its
pinned instances and all sources and targets of its entries. Assembling an automaton from it keeps
the entries and the names of their targets. If the start and the error state then have different
names or are one instance, they are the only instances of their names in the table, whatever edits
follow. -/
theorem Arises.one_instance {t : Table κ} (h : t.Arises) :
    (∀ x ∈ t.instances, ∀ y ∈ t.instances, x.name = y.name → x = y) ∧
      ∀ (start error : State) (ends : NameSet),
        let a := Automaton.assemble start error ends t
        (∀ n on, (a.table.direct n on).names = (t.direct n on).names ∧
          (a.table.transitions.find? n on).isSome = (t.transitions.find? n on).isSome) ∧
        ((start.name ≠ error.name ∨ start = error) → ∀ (l : List (Edit κ)),
          ∀ x ∈ (a.edited l).table.instances,
            (x.name = start.name → x = start) ∧ (x.name = error.name → x = error)) := by
  refine ⟨fun x hx y hy hname => h.oneInstance y.name x hx y hy hname rfl, ?_⟩
  intro start error ends a
  refine ⟨fun n on => ⟨?_, ?_⟩, fun hnames l x hx => ?_⟩
  · exact Automaton.names_direct_assemble start error ends t n on
  · exact Automaton.isSome_find?_assemble start error ends t n on
  · exact Automaton.eq_start_and_eq_error ends t hnames l hx

/-- A table in which an edit names a state by a fresh instance: an automaton that is assembled from
it brings another instance of that state, and an edit names it by a third. -/
theorem Arises.one_instance_shuttle :
    let t : Table Symbol := ((∅ : Table Symbol).apply
      (.add ⟨"left", 0⟩ (.text "go") (.singleton ⟨"right", 1⟩))).apply
        (.add ⟨"right", 2⟩ (.text "go") (.singleton ⟨"left", 3⟩))
    let a := Automaton.assemble ⟨"left", 4⟩ ⟨"error", 5⟩ ∅ t
    let edits : List (Edit Symbol) :=
      [.update ⟨"right", 6⟩ (.text "go") (.singleton ⟨"left", 7⟩)]
    t.Arises ∧ (∀ x ∈ t.instances, ∀ y ∈ t.instances, x.name = y.name → x = y) ∧
      "left" ≠ "error" ∧ (a.table.direct "right" (.text "go")).names = ["left"] ∧
      ∀ x ∈ (a.edited edits).table.instances, x.name = "left" → x = ⟨"left", 4⟩ := by
  intro t a edits
  have harises : t.Arises := .edit (.edit .empty _) _
  have hnames : "left" ≠ "error" := by decide
  obtain ⟨hone, hassemble⟩ := harises.one_instance
  obtain ⟨hkept, hown⟩ := hassemble ⟨"left", 4⟩ ⟨"error", 5⟩ ∅
  have htargets : (t.direct "right" (.text "go")).names = ["left"] := rfl
  refine ⟨harises, hone, hnames, (hkept "right" (.text "go")).1.trans htargets, fun x hx => ?_⟩
  exact (hown (.inl hnames) edits x hx).1

end Table

end HookedAutomata
