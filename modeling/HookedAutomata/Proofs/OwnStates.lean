import HookedAutomata.Proofs.NamesAlone
import HookedAutomata.Proofs.Sharing

/-!
# Where a run can be

Two invariants of the runs that are reached from one that is not started.

* `Run.Entered`: each name among the current states can be entered or is that of the error state,
  and each name in the history can be entered.
* `Run.Within`: the current states are the automaton's own instances, if it shares them. So an action
  consults slots of these instances only (`Run.Within.mem_slots`).
-/

namespace HookedAutomata

variable {κ : Type} [CustomTrigger κ]

theorem Table.mem_states_of_mem_direct {t : Table κ} {n : String} {on : Trigger κ} {x : State}
    (h : x ∈ t.direct n on) : x ∈ t.transitions.states := by
  unfold direct Transitions.targets at h
  split at h
  · rename_i e hfind
    exact Transitions.mem_states.2
      ⟨e, Transitions.mem_of_find? hfind, Transitions.mem_entry_states.2 (.inr h)⟩
  · exact absurd h (SortedSet.not_mem_empty x)

namespace Run

/-- A run that is not started. -/
def fresh (id : Uuid) (a : Automaton κ) (policy : Policy) : Run κ := ⟨id, a, policy, ∅, ∅⟩

/-! ## Names -/

/-- The run of the automaton has only names that can be entered, the error state aside. -/
structure Entered (a : Automaton κ) (r : Run κ) : Prop where
  automaton : r.automaton = a
  current : ∀ n, r.current.has n = true → a.CanEnter n ∨ n = a.error.name
  history : ∀ s ∈ r.history.snapshots, ∀ n, s.has n = true → a.CanEnter n

theorem entered_fresh (id : Uuid) (a : Automaton κ) (policy : Policy) :
    (fresh id a policy).Entered a :=
  ⟨rfl, fun n hn => absurd hn (by simp [fresh]), fun s hs => absurd hs List.not_mem_nil⟩

/-- A snapshot of names that can be entered is added to such snapshots. -/
theorem Entered.record {a : Automaton κ} {r : Run κ} (h : r.Entered a) {ts : StateSet}
    (hts : ∀ n, ts.has n = true → a.CanEnter n) :
    ∀ s ∈ (r.history.record ts).snapshots, ∀ n, s.has n = true → a.CanEnter n := by
  intro s hs
  rw [Sightings.snapshots_record] at hs
  rcases List.mem_append.1 hs with hs | hs
  · exact h.history s hs
  · split at hs
    · exact absurd hs List.not_mem_nil
    · rw [List.mem_singleton.1 hs]
      exact hts

theorem Entered.begun {a : Automaton κ} {r : Run κ} (h : r.Entered a) : r.begun.Entered a := by
  obtain rfl := h.automaton
  have hstart : r.automaton.CanEnter r.automaton.start.name := .inl rfl
  have hinitial : ∀ n, r.initial.has n = true → r.automaton.CanEnter n :=
    fun n hn => hstart.silently ((r.has_begun n).1 hn)
  refine ⟨rfl, fun n hn => .inl (hinitial n hn), h.record fun n hn => ?_⟩
  rw [has_endsAmong, Bool.and_eq_true] at hn
  exact hinitial n hn.1

theorem Entered.moved {a : Automaton κ} {r : Run κ} (h : r.Entered a) (on : Trigger κ) :
    (r.moved on).Entered a := by
  obtain rfl := h.automaton
  have htargets : ∀ (s : State) n, (r.targets on s).has n = true → r.automaton.CanEnter n :=
    fun s n hn => Automaton.canEnter_of_has_resolve hn
  refine ⟨rfl, fun n hn => ?_, h.record fun n hn => ?_⟩
  · obtain ⟨s, hs, hsn⟩ := (r.has_moved on n).1 hn
    rw [has_successors] at hsn
    split at hsn
    · split at hsn
      · rw [beq_iff_eq] at hsn
        exact h.current n (hsn ▸ SortedSet.has_of_mem hs)
      · rw [beq_iff_eq] at hsn
        exact .inr hsn.symm
    · split at hsn
      · exact .inl (htargets s n hsn)
      · rw [beq_iff_eq] at hsn
        exact .inr hsn.symm
  · obtain ⟨⟨s, -, hsn⟩, -⟩ := (r.has_sighted on n).1 hn
    exact htargets s n hsn

theorem Entered.reset {a : Automaton κ} {r : Run κ} (h : r.Entered a) : r.reset.Entered a :=
  ⟨h.automaton, fun n hn => absurd hn (by simp [Run.reset]), h.history⟩

/-- A run that is reached has only names that can be entered, the error state aside. -/
theorem Reached.entered {id : Uuid} {a : Automaton κ} {policy : Policy} {r : Run κ}
    (h : (fresh id a policy).Reached r) : r.Entered a :=
  h.invariant (fun _ h => h.begun) (fun _ on _ h => h.moved on) (fun _ h => h.reset)
    (entered_fresh id a policy)

/-! ## Instances -/

/-- The current states of the run are instances that the automaton has. -/
structure Within (a : Automaton κ) (r : Run κ) : Prop where
  automaton : r.automaton = a
  current : ∀ x ∈ r.current, x ∈ a.states

variable {a : Automaton κ} {r : Run κ}

theorem Within.mem_targets (h : r.Within a) (ha : a.Shared) {on : Trigger κ} {s x : State}
    (hx : x ∈ r.targets on s) : x ∈ a.states := by
  obtain ⟨n, on', hx⟩ := Table.mem_resolve hx
  rw [h.automaton] at hx
  exact ha.mem_states (.inl (Table.mem_states_of_mem_direct hx))

theorem Within.mem_initial (h : r.Within a) (ha : a.Shared) {x : State} (hx : x ∈ r.initial) :
    x ∈ a.states := by
  obtain rfl := h.automaton
  rcases Table.mem_closure hx with hx | ⟨n, on, hx⟩
  · exact ha.mem_states (.inr (.inl (SortedSet.mem_singleton.1 hx)))
  · exact ha.mem_states (.inl (Table.mem_states_of_mem_direct hx))

theorem Within.begun (h : r.Within a) (ha : a.Shared) : r.begun.Within a :=
  ⟨h.automaton, fun _ hx => h.mem_initial ha hx⟩

theorem Within.moved (h : r.Within a) (ha : a.Shared) (on : Trigger κ) : (r.moved on).Within a := by
  refine ⟨h.automaton, fun x hx => ?_⟩
  rcases mem_moved hx with hx | rfl | ⟨s, -, hx⟩
  · exact h.current x hx
  · rw [h.automaton]
    exact ha.mem_states (.inr (.inr rfl))
  · exact h.mem_targets ha hx

theorem Within.reset (h : r.Within a) : r.reset.Within a :=
  ⟨h.automaton, fun x hx => absurd hx (SortedSet.not_mem_empty x)⟩

theorem Within.next (h : r.Within a) (ha : a.Shared) (c : Action κ) : (r.next c).Within a :=
  next_invariant (fun _ h => h.begun ha) (fun _ on _ h => h.moved ha on) (fun _ h => h.reset) h c

/-- A run that is reached is in instances that its automaton has. -/
theorem Reached.within {id : Uuid} {policy : Policy} (ha : a.Shared)
    (h : (fresh id a policy).Reached r) : r.Within a := by
  have hfresh : (fresh id a policy).Within a :=
    ⟨rfl, fun x hx => absurd hx (SortedSet.not_mem_empty x)⟩
  exact h.invariant (fun _ h => h.begun ha) (fun _ on _ h => h.moved ha on) (fun _ h => h.reset)
    hfresh

/-! ## Slots -/

theorem Within.mem_consultations (h : r.Within a) (ha : a.Shared) {on : Trigger κ}
    {p : State × Slot} (hp : p ∈ r.consultations on) : p.1 ∈ a.states := by
  have herror : r.automaton.error ∈ a.states := by
    rw [h.automaton]
    exact ha.mem_states (.inr (.inr rfl))
  obtain ⟨s, hs, hp⟩ := List.mem_flatMap.1 hp
  rcases List.mem_append.1 hp with hp | hp
  · obtain ⟨x, hx, rfl⟩ := List.mem_map.1 hp
    exact h.mem_targets ha hx
  · rcases mem_departure hp with hp | hp
    · rw [hp]
      exact h.current s hs
    · rw [hp]
      exact herror

theorem Within.mem_allConsultations (h : r.Within a) (ha : a.Shared) {word : List (Trigger κ)}
    {p : State × Slot} (hp : p ∈ r.allConsultations word) : p.1 ∈ a.states := by
  induction word generalizing r with
  | nil => exact absurd hp List.not_mem_nil
  | cons on rest ih =>
    unfold allConsultations at hp
    split at hp
    · exact absurd hp List.not_mem_nil
    · rcases List.mem_append.1 hp with hp | hp
      · exact h.mem_consultations ha hp
      · exact ih (h.moved ha on) hp

/-- An action consults slots of the automaton's own instances. -/
theorem Within.mem_slots (h : r.Within a) (ha : a.Shared) {c : Action κ} {p : State × Slot}
    (hp : p ∈ r.slots c) : p.1 ∈ a.states := by
  cases c with
  | start =>
    obtain ⟨x, hx, rfl⟩ := List.mem_map.1 hp
    exact h.mem_initial ha hx
  | update on =>
    simp only [slots] at hp
    split at hp
    · exact absurd hp List.not_mem_nil
    · exact h.mem_consultations ha hp
  | updateAll word => exact h.mem_allConsultations ha hp
  | reset => exact absurd hp List.not_mem_nil
  | atEnd => exact absurd hp List.not_mem_nil

end Run

end HookedAutomata
