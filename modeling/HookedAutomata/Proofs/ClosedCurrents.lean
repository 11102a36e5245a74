import HookedAutomata.Proofs.FinishedRuns

/-!
# Current states are closed, but for the error state

The targets of every source are closed under moves that consume nothing before they become current.
The error state is not: a source that is dead, or that must not branch, gives way to the error state
alone, whatever that leads to without input. So a set of current states is closed but for the error
state (`Table.ClosedBut`), which is kept where such sets are put together
(`Table.closedBut_unions_map`).

A run that may stay does not have the property: what a source leads to without input may move on
while the source stays.

The main statement is `Run.Driven.closed_but_for_error`.
-/

namespace HookedAutomata

variable {κ : Type} [CustomTrigger κ]

/-! ## Closed sets -/

namespace Table

/-- Moves that consume nothing do not lead out of the set, unless from the name `e`. -/
def ClosedBut (t : Table κ) (e : String) (s : StateSet) : Prop :=
  ∀ m n, m ≠ e → s.has m = true → (t.silent m).has n = true → s.has n = true

variable {t : Table κ} {e : String}

theorem closedBut_empty : t.ClosedBut e ∅ := by
  intro m n _ hm _
  simp at hm

theorem closedBut_singleton {s : State} (h : s.name = e) : t.ClosedBut e (.singleton s) := by
  intro m n hne hm _
  have hname : s.name = m := by simpa using hm
  exact absurd (hname.symm.trans h) hne

theorem closedBut_closure (seeds : StateSet) : t.ClosedBut e (t.closure seeds) := by
  intro m n _ hm hmove
  obtain ⟨k, hk, hkm⟩ := has_closure.1 hm
  exact has_closure.2 ⟨k, hk, hkm.tail hmove⟩

theorem closedBut_resolve (m : String) (on : Trigger κ) : t.ClosedBut e (t.resolve m on) := by
  intro k n _ hk hmove
  obtain ⟨i, hi, hik⟩ := has_resolve.1 hk
  exact has_resolve.2 ⟨i, hi, hik.tail hmove⟩

/-- Sets that are closed but for one name are so when they are put together. -/
theorem closedBut_unions_map {s : StateSet} {f : State → StateSet}
    (h : ∀ x ∈ s, t.ClosedBut e (f x)) : t.ClosedBut e (.unions (s.toList.map f)) := by
  intro m n hne hm hmove
  obtain ⟨x, hx, hmx⟩ := SortedSet.has_unions_map.1 hm
  exact SortedSet.has_unions_map.2 ⟨x, hx, h x hx m n hne hmx hmove⟩

/-- A way that consumes nothing stays in the set, or goes on from the name that is left out.
Induction on the way, from its end. -/
theorem ClosedBut.silently {s : StateSet} (h : t.ClosedBut e s) {m n : String}
    (hm : s.has m = true) (hmn : t.Silently m n) :
    s.has n = true ∨ (s.has e = true ∧ t.Silently e n) := by
  induction hmn with
  | refl => exact .inl hm
  | @tail k n _ hmove ih =>
    rcases ih with hk | ⟨he, hek⟩
    · by_cases hke : k = e
      · subst hke
        exact .inr ⟨hk, .single hmove⟩
      · exact .inl (h k n hke hk hmove)
    · exact .inr ⟨he, hek.tail hmove⟩

/-- Closing such a set adds only what the name that is left out leads to. -/
theorem ClosedBut.has_closure_iff {s : StateSet} (h : t.ClosedBut e s) (n : String) :
    (t.closure s).has n = true ↔ s.has n = true ∨ (s.has e = true ∧ t.Silently e n) := by
  rw [has_closure]
  constructor
  · rintro ⟨m, hm, hmn⟩
    exact h.silently hm hmn
  · rintro (hn | ⟨he, hen⟩)
    · exact ⟨n, hn, .refl⟩
    · exact ⟨e, he, hen⟩

end Table

/-! ## Current states -/

namespace Run

/-- The run must not stay, and its current states are closed but for the error state. -/
structure Closed (r : Run κ) : Prop where
  moving : r.policy.allowStaying = false
  current : r.automaton.table.ClosedBut r.automaton.error.name r.current

/-- A source contributes its targets, which are closed, or the error state. -/
theorem closedBut_successors {r : Run κ} (hmove : r.policy.allowStaying = false) (s : State)
    (on : Trigger κ) :
    r.automaton.table.ClosedBut r.automaton.error.name (r.successors s (r.targets on s)) := by
  unfold successors
  rw [hmove]
  split
  · exact Table.closedBut_singleton rfl
  · split
    · exact Table.closedBut_resolve s.name on
    · exact Table.closedBut_singleton rfl

theorem Closed.begun {r : Run κ} (h : r.Closed) : r.begun.Closed :=
  ⟨h.moving, Table.closedBut_closure _⟩

theorem Closed.moved {r : Run κ} (h : r.Closed) (on : Trigger κ) : (r.moved on).Closed :=
  ⟨h.moving, Table.closedBut_unions_map fun s _ => closedBut_successors h.moving s on⟩

theorem Closed.reset {r : Run κ} (h : r.Closed) : r.reset.Closed :=
  ⟨h.moving, Table.closedBut_empty⟩

theorem Closed.next {r : Run κ} (h : r.Closed) (c : Action κ) : (r.next c).Closed :=
  next_invariant (fun _ h => h.begun) (fun _ on _ h => h.moved on) (fun _ h => h.reset) h c

/-- **Current states are closed, but for the error state.** A new run that must not stay, and may or
may not branch, is driven by any actions, each in any wiring.

Then each target that a current state other than the error state has without input is current too. So
closing the current states adds nothing but what the error state leads to, if that is current, and
adds nothing at all if it is not. -/
theorem Driven.closed_but_for_error {a : Automaton κ} {id : Uuid} {policy : Policy}
    {cs : List (Action κ)} {r : Run κ} (h : (fresh id a policy).Driven cs r)
    (hmove : policy.allowStaying = false) :
    (∀ s ∈ r.current, s.name ≠ a.error.name → ∀ x ∈ a.table.direct s.name .epsilon,
      r.current.has x.name = true) ∧
    (∀ n, (a.table.closure r.current).has n = true ↔ r.current.has n = true ∨
      (r.current.has a.error.name = true ∧ a.table.Silently a.error.name n)) ∧
    (r.current.has a.error.name = false →
      (a.table.closure r.current).names = r.current.names) := by
  have hclosed : r.Closed :=
    h.invariant (fun _ c _ hp => hp.next c) ⟨hmove, Table.closedBut_empty⟩
  have hcurrent : a.table.ClosedBut a.error.name r.current := by
    have hautomaton : r.automaton = a := h.automaton_eq
    rw [← hautomaton]
    exact hclosed.current
  refine ⟨fun s hs hne x hx => ?_, hcurrent.has_closure_iff, fun herror => ?_⟩
  · exact hcurrent s.name x.name hne (SortedSet.has_of_mem hs) (SortedSet.has_of_mem hx)
  · rw [SortedSet.names_eq_iff]
    intro n
    rw [Bool.eq_iff_iff, hcurrent.has_closure_iff, herror]
    simp

/-- A ferry whose error state leads to a dock without input. -/
def ferry : Automaton Symbol :=
  .assemble ⟨"idle", 0⟩ ⟨"error", 3⟩ ∅ <| .ofTransitions
    ⟨[⟨⟨"idle", 0⟩, .epsilon, .singleton ⟨"busy", 1⟩⟩,
      ⟨⟨"busy", 1⟩, .text "go", .singleton ⟨"done", 2⟩⟩,
      ⟨⟨"done", 2⟩, .epsilon, .singleton ⟨"idle", 0⟩⟩,
      ⟨⟨"error", 3⟩, .epsilon, .singleton ⟨"dock", 4⟩⟩], by decide⟩

/-- One source of the step is dead and the other is done. What is done leads back to the start
without input, and the dock is not reached. -/
theorem Driven.closed_but_for_error_ferry :
    let go : Action Symbol := .update (.text "go")
    let r := (((fresh default ferry {}).act .logging .start).run.act {} go).run
    (fresh default ferry {}).Driven [.start, go] r ∧ ({} : Policy).allowStaying = false ∧
      r.current.names = ["busy", "done", "error", "idle"] ∧
      (∀ s ∈ r.current, s.name ≠ ferry.error.name → ∀ x ∈ ferry.table.direct s.name .epsilon,
        r.current.has x.name = true) ∧
      ∀ n, (ferry.table.closure r.current).has n = true ↔ r.current.has n = true ∨
        (r.current.has ferry.error.name = true ∧ ferry.table.Silently ferry.error.name n) := by
  intro go r
  have hr : (fresh default ferry {}).Driven [.start, go] r := .act _ (.act _ (.done r))
  obtain ⟨hclosed, hclosure, -⟩ := Driven.closed_but_for_error hr rfl
  exact ⟨hr, rfl, by decide +kernel, hclosed, hclosure⟩

end Run

end HookedAutomata
