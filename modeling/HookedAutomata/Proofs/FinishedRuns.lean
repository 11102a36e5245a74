import HookedAutomata.Proofs.Lifecycle

/-!
# Runs that are over stay over

Whether a run is over is looked up afresh after each step (`Run.atEnd`), and there are two reasons
for it. They last for different causes.

* End states end the run and one was seen (`Run.Ended`). A history only grows, so this lasts
  whatever is done with the run, and wherever its current states have moved.
* The run is in the error state alone (`Run.Lost`). An error state without transitions gives way to
  itself, whether it may stay or not, and so does not go away by steps (`Run.Sunk`). A start or a
  reset would lead out of it.

Either is an invariant, of all actions or of steps alone, under which every step answers that the
run is over (`Run.answers_of_atEnd`). The main statement is `Run.Driven.over_for_good`.
-/

namespace HookedAutomata.Run

variable {κ : Type} [CustomTrigger κ]

/-! ## Invariants of runs that are driven -/

/-- What each of the actions keeps holds of the run that they lead to. -/
theorem Driven.invariant {P : Run κ → Prop} {r q : Run κ} {cs : List (Action κ)}
    (h : r.Driven cs q) (hnext : ∀ p, ∀ c ∈ cs, P p → P (p.next c)) (hr : P r) : P q := by
  induction cs generalizing r with
  | nil =>
    cases h
    exact hr
  | cons c cs ih =>
    refine ih h.next_of_cons (fun p d hd => hnext p d (List.mem_cons_of_mem c hd)) ?_
    exact hnext r c List.mem_cons_self hr

theorem Driven.automaton_eq {r q : Run κ} {cs : List (Action κ)} (h : r.Driven cs q) :
    q.automaton = r.automaton := by
  have hnext : ∀ p : Run κ, ∀ c ∈ cs, p.automaton = r.automaton →
      (p.next c).automaton = r.automaton :=
    fun _ c _ hp => next_invariant (P := fun p => p.automaton = r.automaton)
      (fun _ hp => hp) (fun _ _ _ hp => hp) (fun _ hp => hp) hp c
  exact h.invariant hnext rfl

/-- What steps keep is kept by all actions but a start and a reset. -/
theorem next_invariant_of_moved {P : Run κ → Prop} (hmoved : ∀ r on, P r → P (r.moved on))
    {r : Run κ} (h : P r) {c : Action κ} (hstart : c ≠ .start) (hreset : c ≠ .reset) :
    P (r.next c) := by
  cases c with
  | start => exact absurd rfl hstart
  | update on =>
    simp only [next]
    split
    · exact h
    · exact hmoved r on h
  | updateAll word => exact movedAll_invariant (fun r on _ => hmoved r on) h word
  | reset => exact absurd rfl hreset
  | atEnd => exact h

/-- Where steps keep the run over, every trigger of a word is answered so. -/
theorem answers_of_atEnd {P : Run κ → Prop} (hmoved : ∀ r on, P r → P (r.moved on))
    (hover : ∀ r, P r → r.atEnd = true) {r : Run κ} (h : P r) (hempty : r.current.isEmpty = false)
    (word : List (Trigger κ)) : r.answers word = .ok (List.replicate word.length false) := by
  induction word generalizing r with
  | nil => rfl
  | cons on word ih =>
    have hnext := hmoved r on h
    rw [answers, hempty, ih hnext (isEmpty_moved hempty on), hover _ hnext]
    rfl

/-! ## Runs ended by an end state -/

/-- End states end the run, and one was seen. -/
structure Ended (r : Run κ) : Prop where
  stops : r.policy.stopAtEnd = true
  seen : r.history.isEmpty = false

theorem isEmpty_record (h : Sightings) (s : StateSet) :
    (h.record s).isEmpty = (h.isEmpty && s.isEmpty) := by
  unfold Sightings.isEmpty
  rw [Sightings.snapshots_record]
  cases s.isEmpty <;> simp

theorem Ended.atEnd {r : Run κ} (h : r.Ended) : r.atEnd = true := by
  unfold Run.atEnd
  rw [h.stops, h.seen]
  simp

/-- A history that is not empty is not empty with more in it. -/
theorem Ended.record {r : Run κ} (h : r.Ended) (s : StateSet) :
    (r.history.record s).isEmpty = false := by
  rw [isEmpty_record, h.seen]
  rfl

theorem Ended.begun {r : Run κ} (h : r.Ended) : r.begun.Ended := ⟨h.stops, h.record _⟩

theorem Ended.moved {r : Run κ} (h : r.Ended) (on : Trigger κ) : (r.moved on).Ended :=
  ⟨h.stops, h.record _⟩

theorem Ended.reset {r : Run κ} (h : r.Ended) : r.reset.Ended := ⟨h.stops, h.seen⟩

theorem Ended.next {r : Run κ} (h : r.Ended) (c : Action κ) : (r.next c).Ended :=
  next_invariant (fun _ h => h.begun) (fun _ on _ h => h.moved on) (fun _ h => h.reset) h c

/-! ## Runs in an error state without transitions -/

/-- The error state of the automaton has no targets. -/
def Inert (a : Automaton κ) : Prop := ∀ on, (a.table.direct a.error.name on).isEmpty = true

/-- An inert error state contributes itself: it stays, or fails and gives way to itself. -/
theorem has_successors_error {r : Run κ} (hinert : Inert r.automaton) {s : State}
    (hs : s.name = r.automaton.error.name) (on : Trigger κ) (n : String) :
    (r.successors s (r.targets on s)).has n = (r.automaton.error.name == n) := by
  have hdead : (r.targets on s).isEmpty = true := by
    unfold targets
    rw [hs, Table.isEmpty_resolve]
    exact hinert on
  rw [has_successors, hdead, hs]
  simp

/-- The run is in the error state, among others maybe, and that is inert. -/
structure Sunk (r : Run κ) : Prop where
  inert : Inert r.automaton
  current : r.current.has r.automaton.error.name = true

theorem Sunk.moved {r : Run κ} (h : r.Sunk) (on : Trigger κ) : (r.moved on).Sunk := by
  refine ⟨h.inert, (r.has_moved on _).2 ?_⟩
  obtain ⟨s, hs, hname⟩ := SortedSet.has_iff.1 h.current
  refine ⟨s, hs, ?_⟩
  rw [has_successors_error h.inert hname]
  exact beq_self_eq_true _

/-- The run is in the error state alone, and that is inert. -/
structure Lost (r : Run κ) : Prop where
  inert : Inert r.automaton
  current : r.current.names = [r.automaton.error.name]

/-- A set has one name alone if it has the names of the set of one state. -/
theorem names_eq_singleton_iff {s : StateSet} {x : State} :
    s.names = [x.name] ↔ ∀ n, s.has n = (x.name == n) := by
  have hnames : [x.name] = (SortedSet.singleton x).names := rfl
  rw [hnames, SortedSet.names_eq_iff]
  simp

theorem Lost.moved {r : Run κ} (h : r.Lost) (on : Trigger κ) : (r.moved on).Lost := by
  have hcurrent := names_eq_singleton_iff.1 h.current
  refine ⟨h.inert, names_eq_singleton_iff.2 fun n => ?_⟩
  have hsource : ∀ s ∈ r.current, s.name = r.automaton.error.name := by
    intro s hs
    have hhas := SortedSet.has_of_mem hs
    rw [hcurrent] at hhas
    exact (beq_iff_eq.1 hhas).symm
  -- all sources have the name of the error state, and there is one
  rw [Bool.eq_iff_iff, has_moved]
  constructor
  · rintro ⟨s, hs, hn⟩
    rwa [has_successors_error h.inert (hsource s hs)] at hn
  · intro hn
    obtain ⟨s, hs, hname⟩ := SortedSet.has_iff.1 ((hcurrent _).trans (beq_self_eq_true _))
    refine ⟨s, hs, ?_⟩
    rwa [has_successors_error h.inert hname]

theorem Lost.isEmpty {r : Run κ} (h : r.Lost) : r.current.isEmpty = false := by
  rw [SortedSet.isEmpty_eq_names, h.current]
  rfl

theorem Lost.atEnd {r : Run κ} (h : r.Lost) : r.atEnd = true := by
  have hhas := names_eq_singleton_iff.1 h.current r.automaton.error.name
  unfold Run.atEnd
  rw [SortedSet.size_eq_length_names, h.current, hhas]
  simp

/-! ## For good -/

/-- **Runs that are over stay over.** A run is driven by actions, each in any wiring.

If end states end it and its history is not empty, then it is over and stays so, whatever the
actions are: its history is not empty afterwards, each start answers that it cannot go on, and so
does each step that is not refused.

If its error state has no transitions, and there is no start and no reset among the actions, then it
stays in the error state once it is there. Once it is there alone it stays there alone, and each
further step is taken and answers that the run is over. -/
theorem Driven.over_for_good {r q : Run κ} {cs : List (Action κ)} (h : r.Driven cs q) :
    (r.policy.stopAtEnd = true → r.history.isEmpty = false →
      q.history.isEmpty = false ∧ q.atEnd = true ∧ ∀ w, (q.start w).result = false ∧
        (∀ on, (q.update w on).result =
          if q.isStarted then .ok false else .error .notStarted) ∧
        (q.isStarted = true → ∀ word,
          (q.updateAll w word).result = .ok (List.replicate word.length false))) ∧
    ((∀ on, (r.automaton.table.direct r.automaton.error.name on).isEmpty = true) →
      (∀ c ∈ cs, c ≠ .start ∧ c ≠ .reset) →
      (r.current.has r.automaton.error.name = true →
        q.current.has r.automaton.error.name = true) ∧
      (r.current.names = [r.automaton.error.name] →
        q.current.names = [r.automaton.error.name] ∧ q.atEnd = true ∧
          ∀ w, (∀ on, (q.update w on).result = .ok false) ∧
            ∀ word, (q.updateAll w word).result = .ok (List.replicate word.length false))) := by
  have hautomaton := h.automaton_eq
  refine ⟨fun hstops hseen => ?_, fun hinert hsteps => ⟨fun hcurrent => ?_, fun halone => ?_⟩⟩
  · have hended : q.Ended := h.invariant (fun _ c _ hp => hp.next c) ⟨hstops, hseen⟩
    refine ⟨hended.seen, hended.atEnd, fun w => ⟨?_, fun on => ?_, fun hstarted word => ?_⟩⟩
    · rw [start_eq, hended.begun.atEnd]
      rfl
    · cases hempty : q.current.isEmpty with
      | true => simp [update_of_isEmpty hempty, isStarted, hempty]
      | false => simp [update_eq hempty, isStarted, hempty, (hended.moved on).atEnd]
    · rw [updateAll_eq]
      exact answers_of_atEnd (fun _ on h => h.moved on) (fun _ h => h.atEnd) hended
        (isStarted_iff.1 hstarted) word
  · have hsunk : q.Sunk := h.invariant
      (fun _ c hc hp => next_invariant_of_moved (fun _ on h => h.moved on) hp (hsteps c hc).1
        (hsteps c hc).2) ⟨hinert, hcurrent⟩
    rw [← hautomaton]
    exact hsunk.current
  · have hlost : q.Lost := h.invariant
      (fun _ c hc hp => next_invariant_of_moved (fun _ on h => h.moved on) hp (hsteps c hc).1
        (hsteps c hc).2) ⟨hinert, halone⟩
    refine ⟨hautomaton ▸ hlost.current, hlost.atEnd, fun w => ⟨fun on => ?_, fun word => ?_⟩⟩
    · rw [update_eq hlost.isEmpty, (hlost.moved on).atEnd]
      rfl
    · rw [updateAll_eq]
      exact answers_of_atEnd (fun _ on h => h.moved on) (fun _ h => h.atEnd) hlost hlost.isEmpty
        word

/-- The shuttle is done once and then lost. A reset and a new start lead out of the error state, but
the run is over all the same. Steps alone do not lead out. -/
theorem Driven.over_for_good_shuttle :
    let go : Action Symbol := .update (.text "go")
    let halt : Action Symbol := .update (.text "halt")
    let r₀ := fresh default shuttle { stopAtEnd := true }
    let r := (((r₀.act {} .start).run.act {} go).run.act .logging halt).run
    let q := ((r.act .logging .reset).run.act {} .start).run
    let p := ((r.act {} go).run.act .logging (.updateAll [.text "halt", .epsilon])).run
    r.Driven [.reset, .start] q ∧ r.policy.stopAtEnd = true ∧ r.history.isEmpty = false ∧
      q.current.names = ["busy", "idle"] ∧ q.atEnd = true ∧ q.isStarted = true ∧
      (q.updateAll {} [.text "go"]).result = .ok [false] ∧
      r.Driven [go, .updateAll [.text "halt", .epsilon]] p ∧
      (∀ c ∈ [go, .updateAll [.text "halt", .epsilon]], c ≠ .start ∧ c ≠ .reset) ∧
      (∀ g, (r.automaton.table.direct r.automaton.error.name g).isEmpty = true) ∧
      r.current.names = [r.automaton.error.name] ∧ p.current.names = [r.automaton.error.name] ∧
      (p.update {} (.text "go")).result = .ok false := by
  intro go halt r₀ r q p
  have hr : r₀.Driven [.start, go, halt] r := .act _ (.act _ (.act _ (.done r)))
  have hq : r.Driven [.reset, .start] q := .act _ (.act _ (.done q))
  have hp : r.Driven [go, .updateAll [.text "halt", .epsilon]] p := .act _ (.act _ (.done p))
  have hstops : r.policy.stopAtEnd = true := by decide +kernel
  have hseen : r.history.isEmpty = false := by decide +kernel
  have hstarted : q.isStarted = true := by decide +kernel
  have hinert : ∀ g, (r.automaton.table.direct r.automaton.error.name g).isEmpty = true := by
    rw [hr.automaton_eq]
    exact fun _ => rfl
  have hsteps : ∀ c ∈ [go, .updateAll [.text "halt", .epsilon]], c ≠ .start ∧ c ≠ .reset := by
    simp [go]
  have halone : r.current.names = [r.automaton.error.name] := by decide +kernel
  obtain ⟨-, hover, hended⟩ := hq.over_for_good.1 hstops hseen
  obtain ⟨-, hlost⟩ := hp.over_for_good.2 hinert hsteps
  obtain ⟨hstay, -, hanswers⟩ := hlost halone
  exact ⟨hq, hstops, hseen, by decide +kernel, hover, hstarted,
    (hended {}).2.2 hstarted [.text "go"], hp, hsteps, hinert, halone, hstay,
    (hanswers {}).1 (.text "go")⟩

end HookedAutomata.Run
