import HookedAutomata.Proofs.FinishedRuns

/-!
# Runs that must not branch never widen

Where steps must not branch, a source gives way to one state (`Run.successor`): its only target,
itself if it stays, or the error state. Two sources may give way to the same state, and none to two,
so a step leads to at most as many states as it began with. Targets are counted after closure, so a
single direct target that leads elsewhere without input counts as several.

The start is not held to this. It enters the whole closure of the start state, which is the width
that the run never exceeds from then on.

The main statement is `Run.width_of_not_branching`.
-/

namespace HookedAutomata

/-- A set has no more members than a list that has all its names. -/
theorem SortedSet.size_le_of_has {α : Type} [Named α] {s : SortedSet α} {l : List String}
    (h : ∀ n, s.has n = true → n ∈ l) : s.size ≤ l.length := by
  have hsubset : s.names ⊆ l := fun n hn => h n (mem_names.1 hn)
  rw [size_eq_length_names]
  exact (List.subperm_of_subset s.nodup_names hsubset).length_le

variable {κ : Type} [CustomTrigger κ]

/-- A name that leads nowhere but to itself without input leads nowhere else in any number of
moves. -/
theorem Table.silently_of_alone {t : Table κ} {m n : String}
    (h : ∀ k, (t.silent m).has k = true → k = m) (hmn : t.Silently m n) : n = m := by
  induction hmn with
  | refl => rfl
  | tail _ hmove ih =>
    subst ih
    exact h _ hmove

namespace Run

/-! ## One step -/

/-- The state that a source gives way to where steps must not branch. -/
def successor (r : Run κ) (on : Trigger κ) (s : State) : State :=
  match (r.automaton.table.resolve s.name on).toList with
  | [] => if r.policy.allowStaying then s else r.automaton.error
  | [x] => x
  | _ :: _ :: _ => r.automaton.error

theorem successors_eq_singleton {r : Run κ} (hnarrow : r.policy.allowBranching = false)
    (on : Trigger κ) (s : State) :
    r.successors s (r.targets on s) = .singleton (r.successor on s) := by
  unfold successors successor targets SortedSet.isEmpty SortedSet.size
  rw [hnarrow]
  -- the cases are told by how many targets there are: none, one or more
  rcases hlist : (r.automaton.table.resolve s.name on).toList with _ | ⟨x, _ | ⟨y, l⟩⟩
  · cases r.policy.allowStaying <;> rfl
  · exact SortedSet.ext hlist
  · rfl

/-- A step leads to what the sources give way to. -/
theorem has_moved_of_not_branching {r : Run κ} (hnarrow : r.policy.allowBranching = false)
    (on : Trigger κ) (n : String) :
    (r.moved on).current.has n = true ↔ ∃ s ∈ r.current, (r.successor on s).name = n := by
  simp [has_moved, successors_eq_singleton hnarrow]

theorem size_moved_le {r : Run κ} (hnarrow : r.policy.allowBranching = false) (on : Trigger κ) :
    (r.moved on).current.size ≤ r.current.size := by
  have hle : (r.moved on).current.size ≤
      (r.current.toList.map fun s => (r.successor on s).name).length := by
    refine SortedSet.size_le_of_has fun n hn => ?_
    obtain ⟨s, hs, hname⟩ := (has_moved_of_not_branching hnarrow on n).1 hn
    exact List.mem_map.2 ⟨s, hs, hname⟩
  rwa [List.length_map] at hle

/-! ## Whole runs -/

/-- The run must not branch, and is in no more states than its start enters. -/
structure Narrow (r : Run κ) : Prop where
  narrow : r.policy.allowBranching = false
  size : r.current.size ≤ r.initial.size

theorem Narrow.moved {r : Run κ} (h : r.Narrow) (on : Trigger κ) : (r.moved on).Narrow :=
  ⟨h.narrow, (size_moved_le h.narrow on).trans h.size⟩

theorem Narrow.next {r : Run κ} (h : r.Narrow) (c : Action κ) : (r.next c).Narrow :=
  next_invariant (fun _ h => ⟨h.narrow, Nat.le_refl _⟩) (fun _ on _ h => h.moved on)
    (fun _ h => ⟨h.narrow, Nat.zero_le _⟩) h c

/-- A start state that leads nowhere else without input is all that a start enters. -/
theorem size_initial_of_alone {r : Run κ}
    (h : ∀ x ∈ r.automaton.table.direct r.automaton.start.name .epsilon,
      x.name = r.automaton.start.name) : r.initial.size = 1 := by
  have hnames : r.initial.names = [r.automaton.start.name] := by
    refine names_eq_singleton_iff.2 fun n => ?_
    rw [Bool.eq_iff_iff, beq_iff_eq]
    refine (r.has_begun n).trans ⟨fun hn => (Table.silently_of_alone ?_ hn).symm, ?_⟩
    · intro k hk
      obtain ⟨x, hx, rfl⟩ := SortedSet.has_iff.1 hk
      exact h x hx
    · rintro rfl
      exact .refl
  rw [SortedSet.size_eq_length_names, hnames]
  rfl

/-- **Runs that must not branch never widen.** The run is of any automaton, is in any states, and may
stay or not.

A step that is not refused leads to no more states than the run was in: each state that the run was
in contributes the one state that it gives way to, and the run is then in these.

A run that is started, and does whatever else, each action in any wiring, is in at most as many states
as the closure of the start state has. If the start state leads nowhere but to itself without input,
and the run is not reset, then it is in exactly one. -/
theorem width_of_not_branching (r : Run κ) (hnarrow : r.policy.allowBranching = false) :
    (∀ w on b, (r.update w on).result = .ok b →
      (r.update w on).run.current.size ≤ r.current.size ∧
      (∀ s ∈ r.current, ∀ v, (r.contribute v s (r.automaton.table.resolve s.name on)).1 =
        .singleton (r.successor on s)) ∧
      ∀ n, (r.update w on).run.current.has n = true ↔
        ∃ s ∈ r.current, (r.successor on s).name = n) ∧
    ∀ cs q, r.Driven (.start :: cs) q →
      q.current.size ≤ (r.automaton.table.closure (.singleton r.automaton.start)).size ∧
      ((∀ x ∈ r.automaton.table.direct r.automaton.start.name .epsilon,
        x.name = r.automaton.start.name) → Action.reset ∉ cs → q.current.size = 1) := by
  refine ⟨fun w on b hb => ?_, fun cs q hq => ?_⟩
  · have hempty : r.current.isEmpty = false := by
      cases hempty : r.current.isEmpty with
      | false => rfl
      | true =>
        rw [update_of_isEmpty hempty] at hb
        cases hb
    rw [update_eq hempty]
    refine ⟨size_moved_le hnarrow on, fun s _ v => ?_, has_moved_of_not_branching hnarrow on⟩
    rw [contribute_eq]
    exact successors_eq_singleton hnarrow on s
  · have hbegun : r.begun.Narrow := ⟨hnarrow, Nat.le_refl _⟩
    have hq' : q.Narrow := hq.next_of_cons.invariant (fun _ c _ hp => hp.next c) hbegun
    have hinitial : q.initial = r.initial := by
      unfold initial
      rw [hq.automaton_eq]
    have hle : q.current.size ≤ r.initial.size := hinitial ▸ hq'.size
    refine ⟨hle, fun halone hreset => ?_⟩
    -- no more than one state, as the start enters no more, and some state, as it was started
    have hone : r.initial.size = 1 := size_initial_of_alone halone
    have hstarted : q.isStarted = true :=
      hq.isStarted_iff_startedBy.2 (.inl ⟨[], cs, rfl, hreset⟩)
    have hpos : 0 < q.current.size :=
      List.length_pos_of_ne_nil (List.isEmpty_eq_false_iff.1 (isStarted_iff.1 hstarted))
    omega

/-- A lamp that a push lights, and that goes out again without input. -/
def lamp : Automaton Symbol :=
  .assemble ⟨"off", 0⟩ ⟨"error", 2⟩ ∅ <| .ofTransitions
    ⟨[⟨⟨"off", 0⟩, .epsilon, .singleton ⟨"off", 0⟩⟩, ⟨⟨"off", 0⟩, .text "push", .singleton ⟨"on", 1⟩⟩,
      ⟨⟨"on", 1⟩, .epsilon, .singleton ⟨"off", 0⟩⟩], by decide⟩

/-- The shuttle enters two states. One of them is dead in the next step and the other branches, so
both give way to the error state. The lamp stays off while it waits, and is lost when it is pushed,
as it would be on and off at once. -/
theorem width_of_not_branching_shuttle :
    let r := ((fresh default shuttle { allowBranching := false }).act .logging .start).run
    let o := r.update {} (.text "go")
    let l := fresh default lamp { allowBranching := false, allowStaying := true }
    let wait : Action Symbol := .update (.text "wait")
    let waiting := ((l.act {} .start).run.act .logging wait).run
    let pushed := (waiting.act {} (.updateAll [.text "push", .epsilon])).run
    r.policy.allowBranching = false ∧ r.current.size = 2 ∧ o.result = .ok false ∧
      o.run.current.size ≤ r.current.size ∧
      (∀ n, o.run.current.has n = true ↔
        ∃ s ∈ r.current, (r.successor (.text "go") s).name = n) ∧
      l.policy.allowBranching = false ∧
      (∀ x ∈ lamp.table.direct "off" .epsilon, x.name = "off") ∧
      l.Driven [.start, wait] waiting ∧ waiting.current.names = ["off"] ∧
      l.Driven [.start, wait, .updateAll [.text "push", .epsilon]] pushed ∧
      pushed.current.names = ["error"] ∧ pushed.current.size = 1 := by
  intro r o l wait waiting pushed
  have hgo : o.result = .ok false := by decide +kernel
  have halone : ∀ x ∈ lamp.table.direct "off" .epsilon, x.name = "off" := by
    intro x hx
    obtain rfl : x = ⟨"off", 0⟩ := SortedSet.mem_singleton.1 hx
    rfl
  have hwaiting : l.Driven [.start, wait] waiting := .act _ (.act _ (.done waiting))
  have hpushed : l.Driven [.start, wait, .updateAll [.text "push", .epsilon]] pushed :=
    .act _ (.act _ (.act _ (.done pushed)))
  obtain ⟨hle, -, hhas⟩ := (width_of_not_branching r rfl).1 {} (.text "go") false hgo
  have hone := ((width_of_not_branching l rfl).2 _ pushed hpushed).2 halone (by simp [wait])
  exact ⟨rfl, by decide +kernel, hgo, hle, hhas, rfl, halone, hwaiting, by decide +kernel, hpushed,
    by decide +kernel, hone⟩

end Run

end HookedAutomata
